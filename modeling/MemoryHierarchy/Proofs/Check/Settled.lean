import MemoryHierarchy.Proofs.Check.Geometry
import MemoryHierarchy.Proofs.Model.Fit
import MemoryHierarchy.Proofs.Resolution.Completeness

/-!
# What the checks settle

The checks look at values by predicates, and typed records read them by readers. Some predicates are
as strict as the reader of the field (`Predicate.Settles`), and where a field is checked by one of
these, or is written by a pass itself, a complete record that passes its checks fits in that field.
What is left are the fields that no check settles, `RecordKind.openFields`: a count is only asked to
be whole, as `4.0` is, and nothing is asked of clock scales and levels.
-/

namespace MemoryHierarchy

/-! ## Predicates and readers

A predicate settles a reader if whatever it holds of can be read. Most pairs are not of this kind: a
count may be too large for its word, which is why such fields stay open. -/

theorem Reader.natural_of_natural? {value : Json} {n : Nat} (hvalue : value.natural? = some n)
    (expected : Expected) : natural UInt64.size expected value = .ok n := by
  cases value with
  | number number =>
    cases number with
    | integer m =>
      rw [Json.natural?, Number.natural?] at hvalue
      obtain ⟨hrange, hm⟩ := Option.ite_none_right_eq_some.mp hvalue
      rw [Option.some.injEq] at hm
      rw [natural, if_pos hrange, hm]
    | float x => cases hvalue
  | _ => cases hvalue

namespace Predicate

/-- Every value of which a predicate holds is read. A field whose check settles its reader cannot
fail once the check has passed. -/
def Settles {α : Type} (predicate : Predicate) (read : Reader α) : Prop :=
  ∀ value, predicate.holds value = true → ∃ a, read value = .ok a

/-- A predicate is asked of the value under a key. -/
def AskedOf (predicate : Predicate) (key : String) (checks : List AttributeCheck) : Prop :=
  (key.toList.splitOn '.').map String.ofList = [key] ∧
    ∃ check ∈ checks, check.path = key ∧ predicate ∈ check.predicates

instance (predicate : Predicate) (key : String) (checks : List AttributeCheck) :
    Decidable (predicate.AskedOf key checks) :=
  inferInstanceAs (Decidable (_ ∧ _))

theorem settles_word : powerOfTwo.Settles .word := by
  intro value hholds
  rw [holds] at hholds
  cases hvalue : value.natural? with
  | none =>
    rw [hvalue] at hholds
    cases hholds
  | some n => exact ⟨n, Reader.natural_of_natural? hvalue _⟩

theorem settles_float : number.Settles .float := by
  intro value hholds
  cases value with
  | number n => exact ⟨n.toFloat, rfl⟩
  | _ => cases hholds

theorem settles_boolean : boolean.Settles .boolean := by
  intro value hholds
  cases value with
  | bool b => exact ⟨b, rfl⟩
  | _ => cases hholds

theorem settles_string : string.Settles .string := by
  intro value hholds
  cases value with
  | string s => exact ⟨s, rfl⟩
  | _ => cases hholds

theorem settles_nullableString : string.Settles .nullableString := by
  intro value hholds
  cases value with
  | string s => exact ⟨some s, rfl⟩
  | _ => cases hholds

theorem settles_strings : strings.Settles .strings := by
  intro value hholds
  cases value with
  | array items =>
    rw [holds, List.all_eq_true] at hholds
    refine exists_mapM_eq_ok_iff.mpr fun item hitem => ?_
    obtain ⟨s, hs⟩ := Option.isSome_iff_exists.mp (hholds item hitem)
    cases item with
    | string s => exact ⟨s, rfl⟩
    | _ => cases hs
  | _ => cases hholds

end Predicate

/-! ## Fields

A field fits if its value can be read, or if it may be absent and is. -/

variable {record : Document}

namespace Field

variable {α : Type} {read : Reader α} {key : String} {value : Json}

theorem fits_of_string? {s : String} (hstring : record.string? key = some s) :
    (Reader.string.field key).Fits record :=
  fits_field_iff.mpr ⟨s, Document.read_string_eq_ok_iff.mpr hstring⟩

theorem fits_of_read (hvalue : record.get? key = some value) (hread : ∃ a, read value = .ok a) :
    (read.field key).Fits record := by
  obtain ⟨a, ha⟩ := hread
  exact fits_field_iff.mpr ⟨a, Document.read_eq_ok_iff.mpr ⟨value, hvalue, ha⟩⟩

section

variable {kind : String} {checks : List AttributeCheck} {predicate : Predicate}
  (hchecked : checkRecord kind checks record = []) (hasked : predicate.AskedOf key checks)
  (hsettles : predicate.Settles read)

include hchecked hasked hsettles

theorem exists_read_of_asked (hvalue : record.get? key = some value) :
    ∃ a, read value = .ok a := by
  obtain ⟨hkey, check, hcheck, rfl, hpredicate⟩ := hasked
  rw [← Document.at?_of_key hkey] at hvalue
  exact hsettles value (holds_of_checkRecord hchecked hcheck hvalue hpredicate)

/-- A field that is there fits when a predicate as strict as its reader is asked of it. -/
theorem fits_of_asked (hthere : record.contains key = true) : (read.field key).Fits record := by
  obtain ⟨value, hvalue⟩ := Document.contains_iff.mp hthere
  exact fits_of_read hvalue (exists_read_of_asked hchecked hasked hsettles hvalue)

theorem optional_fits_of_asked : (read.optionalField key).Fits record := by
  refine fits_iff.mpr ⟨fun value hvalue => ?_, fun hrequired => nomatch hrequired⟩
  exact map_unit_eq_ok_iff.mpr (exists_read_of_asked hchecked hasked hsettles hvalue)

end

end Field

/-! ## Records

The fields of a schema are split into those that checks settle and the rest. Which ones these are is
computed from the two tables, so a change of either shows up here. -/

/-- The fields of a schema but for those under some keys. -/
def Schema.without (schema : Schema) (keys : List String) : Schema :=
  schema.filter (·.key ∉ keys)

/-- A document that fits under some keys fits a schema when it fits the rest. -/
theorem Schema.fits_iff_without {schema : Schema} {keys : List String}
    (hfits : ∀ field ∈ schema.filter (·.key ∈ keys), field.Fits record) :
    schema.Fits record ↔ (schema.without keys).Fits record := by
  unfold Fits without
  constructor
  · intro hall field hfield
    exact hall field (List.mem_filter.mp hfield).1
  · intro hrest field hfield
    by_cases hkey : field.key ∈ keys
    · exact hfits field (List.mem_filter.mpr ⟨hfield, decide_eq_true hkey⟩)
    · exact hrest field (List.mem_filter.mpr ⟨hfield, decide_eq_true hkey⟩)

namespace RecordKind

/-- The keys of a kind of records under which a record fits once its checks find nothing. -/
def settledKeys : RecordKind → List String
  | core => ["name", "index", "frequency", "L1I", "L1D", "ITLB", "DTLB", "branch_predictor", "btb"]
  | cache => ["name", "frequency", "sets", "prefetch_as_load", "wq_check_full_addr",
      "virtual_prefetch", "needs_translate", "prefetch_activate", "lower_level", "lower_translate",
      "prefetcher", "replacement"]
  | walker => ["name", "frequency", "pscl5_set", "pscl4_set", "pscl3_set", "pscl2_set"]

/-- The fields of a kind of records that no check settles. Only these can make typing fail for a
record that was checked without a report. -/
def openFields (kind : RecordKind) : Schema := kind.schema.without kind.settledKeys

end RecordKind

open Document (HasAll)
open MemoryHierarchy.Field (fits_of_string? fits_of_asked)
open Predicate

-- In each of the proofs below the fields stand in the order of the schema.

theorem Core.fits_iff_openFields
    (hchecked : checkRecord RecordKind.core.name AttributeCheck.core record = [])
    (hname : ∃ name, record.name? = some name) (hindex : ∃ i, record.natural? "index" = some i)
    (hslots : ∀ slot, ∃ name, record.slot? slot = some name)
    (hall : record.HasAll Template.coreAttributes) :
    Core.schema.Fits record ↔ RecordKind.core.openFields.Fits record := by
  -- the settled fields are computed from the schema, and each is accounted for below
  have hfields : Core.schema.filter (·.key ∈ RecordKind.core.settledKeys) =
      [Reader.string.field "name", Reader.size.field "index", Reader.float.field "frequency",
        Reader.string.field "L1I", Reader.string.field "L1D", Reader.string.field "ITLB",
        Reader.string.field "DTLB", Reader.strings.field "branch_predictor",
        Reader.strings.field "btb"] := rfl
  have hslot : ∀ slot : Slot, (Reader.string.field slot.key).Fits record := by
    intro slot
    obtain ⟨target, htarget⟩ := hslots slot
    exact fits_of_string? htarget
  obtain ⟨name, hname⟩ := hname
  obtain ⟨i, hindex⟩ := hindex
  obtain ⟨value, hvalue, hnatural⟩ := Option.bind_eq_some_iff.mp hindex
  refine Schema.fits_iff_without ?_
  rw [hfields]
  simp only [List.forall_mem_cons, List.not_mem_nil, false_implies, implies_true, and_true]
  exact ⟨fits_of_string? hname,
    Field.fits_of_read hvalue ⟨i, Reader.natural_of_natural? hnatural _⟩,
    fits_of_asked hchecked (by decide) settles_float (hall _ (by decide)),
    hslot .l1i, hslot .l1d, hslot .itlb, hslot .dtlb,
    fits_of_asked hchecked (by decide) settles_strings (hall _ (by decide)),
    fits_of_asked hchecked (by decide) settles_strings (hall _ (by decide))⟩

theorem Cache.fits_iff_openFields
    (hchecked : checkRecord RecordKind.cache.name AttributeCheck.cache record = [])
    (hname : ∃ name, record.name? = some name) (hfrequency : record.contains "frequency" = true)
    (hlower : record.contains MemoryHierarchy.lowerLevel = true)
    (htranslates : ∃ b, record.get? "needs_translate" = some (.bool b))
    (hall : record.HasAll cacheAttributes) :
    Cache.schema.Fits record ↔ RecordKind.cache.openFields.Fits record := by
  have hfields : Cache.schema.filter (·.key ∈ RecordKind.cache.settledKeys) =
      [Reader.string.field "name", Reader.float.field "frequency", Reader.word.field "sets",
        Reader.boolean.field "prefetch_as_load", Reader.boolean.field "wq_check_full_addr",
        Reader.boolean.field "virtual_prefetch", Reader.boolean.field "needs_translate",
        Reader.strings.field "prefetch_activate", Reader.string.field "lower_level",
        Reader.nullableString.optionalField "lower_translate", Reader.strings.field "prefetcher",
        Reader.strings.field "replacement"] := rfl
  obtain ⟨name, hname⟩ := hname
  obtain ⟨translates, htranslates⟩ := htranslates
  refine Schema.fits_iff_without ?_
  rw [hfields]
  simp only [List.forall_mem_cons, List.not_mem_nil, false_implies, implies_true, and_true]
  exact ⟨fits_of_string? hname,
    fits_of_asked hchecked (by decide) settles_float hfrequency,
    fits_of_asked hchecked (by decide) settles_word (hall _ (by decide)),
    fits_of_asked hchecked (by decide) settles_boolean (hall _ (by decide)),
    fits_of_asked hchecked (by decide) settles_boolean (hall _ (by decide)),
    fits_of_asked hchecked (by decide) settles_boolean (hall _ (by decide)),
    -- no check asks whether a cache translates, which is always written
    Field.fits_of_read htranslates ⟨translates, rfl⟩,
    fits_of_asked hchecked (by decide) settles_strings (hall _ (by decide)),
    fits_of_asked hchecked (by decide) settles_string hlower,
    Field.optional_fits_of_asked hchecked (by decide) settles_nullableString,
    fits_of_asked hchecked (by decide) settles_strings (hall _ (by decide)),
    fits_of_asked hchecked (by decide) settles_strings (hall _ (by decide))⟩

theorem Walker.fits_iff_openFields
    (hchecked : checkRecord RecordKind.walker.name AttributeCheck.walker record = [])
    (hname : ∃ name, record.name? = some name) (hfrequency : record.contains "frequency" = true)
    (hall : record.HasAll walkerAttributes) :
    Walker.schema.Fits record ↔ RecordKind.walker.openFields.Fits record := by
  have hfields : Walker.schema.filter (·.key ∈ RecordKind.walker.settledKeys) =
      [Reader.string.field "name", Reader.float.field "frequency", Reader.word.field "pscl5_set",
        Reader.word.field "pscl4_set", Reader.word.field "pscl3_set",
        Reader.word.field "pscl2_set"] := rfl
  obtain ⟨name, hname⟩ := hname
  refine Schema.fits_iff_without ?_
  rw [hfields]
  simp only [List.forall_mem_cons, List.not_mem_nil, false_implies, implies_true, and_true]
  -- in the order of the fields above
  exact ⟨fits_of_string? hname,
    fits_of_asked hchecked (by decide) settles_float hfrequency,
    fits_of_asked hchecked (by decide) settles_word (hall _ (by decide)),
    fits_of_asked hchecked (by decide) settles_word (hall _ (by decide)),
    fits_of_asked hchecked (by decide) settles_word (hall _ (by decide)),
    fits_of_asked hchecked (by decide) settles_word (hall _ (by decide))⟩

end MemoryHierarchy
