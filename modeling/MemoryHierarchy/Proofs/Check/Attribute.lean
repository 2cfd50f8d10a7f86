import MemoryHierarchy.Proofs.Check.Geometry
import MemoryHierarchy.Proofs.Check.Loop

/-!
# What a report says of attributes

A diagnostic of a record is about one attribute, a value of which fails a predicate; diagnostics of
the links are about slots and links. So a report has a failed check just in case a record of some
kind has a value that fails what its kind requires (`failedCheck_mem_diagnostics_iff`), and says
nothing of an attribute that is neither a slot nor a link where there is no such check
(`attribute_ne_of_mem_diagnostics`).
-/

namespace MemoryHierarchy

namespace Diagnostic

/-- The attribute that a diagnostic is about. -/
def attribute? : Diagnostic → Option String
  | failedCheck _ _ path _ _ => some path
  | unknownCache _ slot _ => some slot.key
  | unknownElement _ _ link _ => some link
  | cycle _ | openDataPath _ _ | noWalker _ _ => none

/-- A diagnostic of the links of a hierarchy. -/
def IsOfLinks : Diagnostic → Prop
  | failedCheck _ _ _ _ _ => False
  | unknownElement _ _ link _ => link ∈ [lowerLevel, lowerTranslate]
  | unknownCache _ _ _ | cycle _ | openDataPath _ _ | noWalker _ _ => True

end Diagnostic

/-- The attributes that diagnostics of the links are about. -/
def linkAttributes : List String := Slot.all.map Slot.key ++ [lowerLevel, lowerTranslate]

theorem Diagnostic.IsOfLinks.attribute_mem {d : Diagnostic} (hd : d.IsOfLinks) {path : String}
    (hpath : d.attribute? = some path) : path ∈ linkAttributes := by
  cases d with
  | failedCheck => exact hd.elim
  | unknownCache core slot target =>
    cases hpath
    exact List.mem_append_left _ (List.mem_map_of_mem (NormalizedConfiguration.mem_slots slot))
  | unknownElement kind name link target =>
    cases hpath
    exact List.mem_append_right _ hd
  | _ => cases hpath

namespace Hierarchy

variable {h : Hierarchy} {d : Diagnostic}

/-- The records of a kind. -/
def recordsOf (h : Hierarchy) : RecordKind → List Document
  | .core => h.cores
  | .cache => h.caches.values
  | .walker => h.walkers.values

theorem mem_checkRecords_iff : d ∈ h.checkRecords ↔ ∃ kind : RecordKind,
    ∃ record ∈ h.recordsOf kind, ∃ check ∈ AttributeCheck.ofKind kind,
      d ∈ check.diagnostics kind.name record := by
  have hkind : ∀ kind records, d ∈ checkKind kind records ↔ ∃ record ∈ records,
      ∃ check ∈ AttributeCheck.ofKind kind, d ∈ check.diagnostics kind.name record := by
    intro kind records
    simp only [checkKind, checkRecord, List.mem_flatMap]
  unfold checkRecords
  simp only [List.mem_append, hkind]
  constructor
  · rintro ((hcore | hcache) | hwalker)
    · exact ⟨.core, hcore⟩
    · exact ⟨.cache, hcache⟩
    · exact ⟨.walker, hwalker⟩
  · rintro ⟨kind, hrecord⟩
    cases kind with
    | core => exact .inl (.inl hrecord)
    | cache => exact .inl (.inr hrecord)
    | walker => exact .inr hrecord

theorem isOfLinks_of_mem_checkReferences (hd : d ∈ h.checkReferences) : d.IsOfLinks := by
  rcases exists_of_mem_checkReferences hd with ⟨_, _, _, rfl⟩ | ⟨_, _, _, link, hlink, rfl⟩
  · trivial
  · exact hlink

theorem isOfLinks_of_mem_checkTopology (hd : d ∈ h.checkTopology) : d.IsOfLinks := by
  unfold checkTopology at hd
  dsimp only at hd
  -- the report has references, then cycles, then paths
  rcases List.mem_append.mp hd with hd | hd
  · rcases List.mem_append.mp hd with hd | hd
    · exact isOfLinks_of_mem_checkReferences hd
    · obtain ⟨loop, _, rfl⟩ := List.mem_map.mp hd
      trivial
  · split at hd
    · have hpath := isPath_of_mem_checkPaths hd
      cases d with
      | openDataPath => trivial
      | noWalker => trivial
      | _ => cases hpath
    · cases hd

end Hierarchy

theorem AttributeCheck.mem_diagnostics_iff {check : AttributeCheck} {kind : String}
    {record : Document} {d : Diagnostic} : d ∈ check.diagnostics kind record ↔
      ∃ value, record.at? check.path = some value ∧
        ∃ predicate ∈ check.predicates, predicate.holds value = false ∧
          .failedCheck kind record.shownName check.path predicate value = d := by
  unfold AttributeCheck.diagnostics
  cases record.at? check.path with
  | none => simp
  | some value => simp [and_assoc]

namespace ResolvedConfiguration

variable {r : ResolvedConfiguration}

/-- **A failed check is a value of a record** that fails what is required of records of its kind.
Diagnostics of the links are never failed checks, so only the tables of attributes are looked at. -/
theorem failedCheck_mem_diagnostics_iff {kindName name path : String} {predicate : Predicate}
    {found : Json} : .failedCheck kindName name path predicate found ∈ r.diagnostics ↔
      ∃ kind : RecordKind, kind.name = kindName ∧
        ∃ record ∈ r.hierarchy.recordsOf kind, record.shownName = name ∧
          record.at? path = some found ∧ predicate.holds found = false ∧
          ∃ check ∈ AttributeCheck.ofKind kind, check.path = path ∧
            predicate ∈ check.predicates := by
  unfold diagnostics
  -- no line about links is a failed check, so the line is about an attribute of some record
  rw [List.mem_append, Hierarchy.mem_checkRecords_iff]
  constructor
  · rintro (⟨kind, record, hrecord, check, hcheck, hd⟩ | hd)
    · obtain ⟨value, hvalue, p, hp, hfails, heq⟩ := AttributeCheck.mem_diagnostics_iff.mp hd
      cases heq
      exact ⟨kind, rfl, record, hrecord, rfl, hvalue, hfails, check, hcheck, rfl, hp⟩
    · exact (Hierarchy.isOfLinks_of_mem_checkTopology hd).elim
  · rintro ⟨kind, rfl, record, hrecord, rfl, hvalue, hfails, check, hcheck, rfl, hp⟩
    exact .inl ⟨kind, record, hrecord, check, hcheck,
      AttributeCheck.mem_diagnostics_iff.mpr ⟨found, hvalue, predicate, hp, hfails, rfl⟩⟩

/-- Nothing is said of an attribute that passes wherever it is checked. -/
theorem attribute_ne_of_mem_diagnostics {path : String} (hlinks : path ∉ linkAttributes)
    (hpasses : ∀ kind : RecordKind, ∀ record ∈ r.hierarchy.recordsOf kind,
      ∀ check ∈ AttributeCheck.ofKind kind, check.path = path →
        ∀ value, record.at? path = some value →
          ∀ predicate ∈ check.predicates, predicate.holds value = true) :
    ∀ d ∈ r.diagnostics, d.attribute? ≠ some path := by
  intro d hd hpath
  rcases List.mem_append.mp hd with hd | hd
  · obtain ⟨kind, record, hrecord, check, hcheck, hd⟩ := Hierarchy.mem_checkRecords_iff.mp hd
    obtain ⟨value, hvalue, p, hp, hfails, rfl⟩ := AttributeCheck.mem_diagnostics_iff.mp hd
    obtain rfl : check.path = path := Option.some.inj hpath
    rw [hpasses kind record hrecord check hcheck rfl value hvalue p hp] at hfails
    cases hfails
  · exact hlinks ((Hierarchy.isOfLinks_of_mem_checkTopology hd).attribute_mem hpath)

end ResolvedConfiguration

end MemoryHierarchy
