import Std.Data.ExtTreeMap
import Std.Data.ExtTreeSet
import MemoryHierarchy.Document.Merge

/-!
# Named records

Caches and page-table walkers are records of a map keyed by name. Names are ordered by their code
points, and two maps are equal when they agree on every name.

`combineNamed` collects the declarations of each name and merges them; `getElem?_combineNamed` says
that the record found under a name is the merge of the declarations that carry the name.
-/

namespace MemoryHierarchy

/-- A map from names, in the order of the names. -/
abbrev NameMap (α : Type) := Std.ExtTreeMap String α

/-- A set of names. -/
abbrev NameSet := Std.ExtTreeSet String

/-- Records by name. -/
abbrev RecordMap := NameMap Document

namespace Record

/-- Adds a declaration in front of those that carry the same name; one without a name is dropped. -/
def addDeclaration (record : Document) (groups : NameMap (List Document)) :
    NameMap (List Document) :=
  match record.name? with
  | some name => groups.insert name (record :: groups.getD name [])
  | none => groups

/-- The declarations of each name, in order of priority. -/
def groupByName (records : List Document) : NameMap (List Document) :=
  records.foldr addDeclaration ∅

/-- One record for each name: the merge of its declarations in order of priority. -/
def combineNamed (records : List Document) : RecordMap :=
  (groupByName records).map fun _ group => Document.mergeAll group

/-- The declarations that carry a name. -/
def declarations (name : String) (records : List Document) : List Document :=
  records.filter (·.name? = some name)

theorem getElem?_groupByName (name : String) (records : List Document) :
    (groupByName records)[name]? =
      if declarations name records = [] then none else some (declarations name records) := by
  induction records with
  | nil => simp [groupByName, declarations]
  | cons record records ih =>
    simp only [groupByName, List.foldr_cons] at ih ⊢
    simp only [addDeclaration]
    cases h : record.name? with
    | none => simp_all [declarations]
    | some key =>
      by_cases hk : key = name
      · subst hk
        simp only [declarations, List.filter_cons, h, decide_true, if_true] at ih ⊢
        rw [Std.ExtTreeMap.getD_eq_getD_getElem?, ih]
        by_cases hd : records.filter (·.name? = some key) = [] <;> simp [hd]
      · simp_all [declarations, Std.ExtTreeMap.getElem?_insert]

theorem getElem?_combineNamed (name : String) (records : List Document) :
    (combineNamed records)[name]? =
      if declarations name records = [] then none
      else some (Document.mergeAll (declarations name records)) := by
  rw [combineNamed, Std.ExtTreeMap.getElem?_map, getElem?_groupByName]
  split <;> rfl

end Record

end MemoryHierarchy
