import MemoryHierarchy.Json.Basic

/-!
# Merging documents

Layered documents are combined so that the earlier one wins: mappings are merged key by key, lists
are joined with the earlier one first, and of anything else the earlier value is kept. At the top
level a key may carry a rule of its own, which is used where both sides have the key.

`mergeWith_plain` says that without rules the top level is merged like every nested one.
-/

namespace MemoryHierarchy

mutual

/-- Merges two values found under one key; the left one has priority. Lists are joined and mappings
merged key by key, and of any other two values the left one stays. -/
def Json.merge : Json → Json → Json
  | .object left, .object right => .object (Document.mergeInto left right)
  | .array left, .array right => .array (left ++ right)
  | left, _ => left

/-- Merges the fields of the second document into the first one. -/
def Document.mergeInto (left : Document) : List (String × Json) → Document
  | [] => left
  | (key, value) :: rest =>
    let merged :=
      match left.get? key with
      | some present => Json.merge present value
      | none => value
    Document.mergeInto (left.set key merged) rest

end

namespace Document

/-- How the two values of a top-level key are combined, for the keys that have a rule. -/
abbrev MergeRules := String → Option (Json → Json → Json)

/-- No key has a rule of its own. -/
def MergeRules.plain : MergeRules := fun _ => none

/-- Gives one key a rule of its own. -/
def MergeRules.withRule (rules : MergeRules) (key : String) (rule : Json → Json → Json) :
    MergeRules :=
  fun k => if k = key then some rule else rules k

/-- The value that a key has after a merge, of the one it had and the one it meets. A key with a
rule goes by the rule, and any other one by the merge of values. -/
def combine (rules : MergeRules) (key : String) (present : Option Json) (value : Json) : Json :=
  match present with
  | none => value
  | some present =>
    match rules key with
    | some rule => rule present value
    | none => present.merge value

/-- Merges the second document into the first one, key by key. Keys of the first document keep their
places, and new ones are put at the end. -/
def mergeWith (rules : MergeRules) (left right : Document) : Document :=
  right.foldl (fun d field => d.set field.1 (combine rules field.1 (d.get? field.1) field.2)) left

/-- Merges documents in order of priority, under rules for some keys. Of no documents the merge is
empty. -/
def mergeAllWith (rules : MergeRules) (docs : List Document) : Document :=
  docs.foldl (mergeWith rules) []

/-- Merges documents in order of priority. -/
def mergeAll (docs : List Document) : Document := mergeAllWith .plain docs

/-- A merge without rules is the merge of nested mappings. -/
theorem mergeWith_plain (left right : Document) :
    mergeWith .plain left right = mergeInto left right := by
  induction right generalizing left with
  | nil => simp [mergeWith, mergeInto]
  | cons field right ih =>
    obtain ⟨key, value⟩ := field
    simp only [mergeWith, List.foldl_cons, mergeInto] at ih ⊢
    rw [ih]
    congr 2
    cases left.get? key <;> simp [combine, MergeRules.plain]

end Document

end MemoryHierarchy
