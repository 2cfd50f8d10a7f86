import MemoryHierarchy.Model.Record
import MemoryHierarchy.Proofs.Document.Merge
import MemoryHierarchy.Proofs.Except
import MemoryHierarchy.Slot

/-!
# What a typed record was read from

A typed record is read field by field, so each of its fields says what the document holds under the
key of the field: `Cache.ReadFrom`, `Walker.ReadFrom` and `Core.ReadFrom` have one such statement
for each field that others ask about. These are the fields by which elements are named, ordered and
wired, those that hold numbers of sets and names of modules, and those that are written in another
form than they were read. -/

namespace MemoryHierarchy

namespace Document

variable {doc : Document} {key : String}

theorem read_string_eq_ok_iff {s : String} :
    doc.read .string key = .ok s ↔ doc.string? key = some s := by
  unfold Document.read Document.string?
  cases doc.get? key with
  | none => simp
  | some value => cases value <;> simp [Reader.string, Json.string?]

theorem read_eq_ok_iff {α : Type} {reader : Reader α} {a : α} :
    doc.read reader key = .ok a ↔ ∃ value, doc.get? key = some value ∧ reader value = .ok a := by
  unfold Document.read
  cases doc.get? key with
  | none => simp
  | some value => simp

theorem eq_of_read_natural {bound n level : Nat} {expected : Expected}
    (hread : doc.read (Reader.natural bound expected) key = .ok n)
    (hget : doc.get? key = some (.ofNat level)) : n = level := by
  unfold Document.read at hread
  rw [hget] at hread
  dsimp only [Json.ofNat, Reader.natural] at hread
  split at hread
  · rw [Except.ok.injEq, Int.toNat_natCast] at hread
    exact hread.symm
  · cases hread

end Document

/-- What is read as a number below a bound is the number that is written. -/
theorem Reader.eq_ofNat_of_natural {bound : Nat} {expected : Expected} {value : Json} {n : Nat}
    (hread : Reader.natural bound expected value = .ok n) : value = .ofNat n ∧ n < bound := by
  unfold Reader.natural at hread
  split at hread
  · next written =>
    split at hread
    · next hrange =>
      rw [Except.ok.injEq] at hread
      obtain ⟨m, rfl⟩ := Int.eq_ofNat_of_zero_le hrange.1
      rw [Int.toNat_natCast] at hread
      subst hread
      exact ⟨rfl, Int.ofNat_lt.mp hrange.2⟩
    · cases hread
  · cases hread

/-- A word is the number that is written. -/
theorem Reader.eq_ofNat_of_word {value : Json} {n : Nat} (hread : Reader.word value = .ok n) :
    value = .ofNat n ∧ n < UInt64.size :=
  Reader.eq_ofNat_of_natural hread

variable {doc : Document}

/-! ## Fields that are read

Reading goes through the fields in the order of the type. In each of the proofs below all of them
are opened, however many there are, and the ones that are asked for are found among what has been
read; so a field more in a type changes none of these proofs. -/

/-- A cache was read from a document, as far as others ask. -/
structure Cache.ReadFrom (c : Cache) (doc : Document) : Prop where
  name : doc.name? = some c.name
  frequency : doc.read .float "frequency" = .ok c.frequency
  clockScale : doc.read .float "clock_scale" = .ok c.clockScale
  fillLevel : doc.read .halfWord "fill_level" = .ok c.fillLevel
  sets : doc.read .word "sets" = .ok c.sets
  lowerLevel : doc.string? MemoryHierarchy.lowerLevel = some c.lowerLevel
  lowerTranslate : doc.readOptional .nullableString "lower_translate" = .ok c.lowerTranslate
  prefetchers : doc.read .strings "prefetcher" = .ok c.prefetchers
  replacements : doc.read .strings "replacement" = .ok c.replacements
  options : c.options = Cache.schema.others doc

theorem Cache.readFrom_of_ofDocument {c : Cache} (hread : Cache.ofDocument doc = .ok c) :
    c.ReadFrom doc := by
  unfold Cache.ofDocument at hread
  repeat obtain ⟨_, _, hread⟩ := bind_eq_ok_iff.mp hread
  rw [← pure_eq_ok_iff.mp hread]
  exact {
    name := Document.read_string_eq_ok_iff.mp ‹_›
    frequency := ‹_›
    clockScale := ‹_›
    fillLevel := ‹_›
    sets := ‹_›
    lowerLevel := Document.read_string_eq_ok_iff.mp ‹_›
    lowerTranslate := ‹_›
    prefetchers := ‹_›
    replacements := ‹_›
    options := rfl }

/-- A walker was read from a document, as far as others ask. -/
structure Walker.ReadFrom (w : Walker) (doc : Document) : Prop where
  name : doc.name? = some w.name
  fillLevel : doc.read .halfWord "fill_level" = .ok w.fillLevel
  level5Sets : doc.read .word "pscl5_set" = .ok w.level5Sets
  level4Sets : doc.read .word "pscl4_set" = .ok w.level4Sets
  level3Sets : doc.read .word "pscl3_set" = .ok w.level3Sets
  level2Sets : doc.read .word "pscl2_set" = .ok w.level2Sets
  lowerLevel : doc.string? MemoryHierarchy.lowerLevel = some w.lowerLevel

theorem Walker.readFrom_of_ofDocument {w : Walker} (hread : Walker.ofDocument doc = .ok w) :
    w.ReadFrom doc := by
  unfold Walker.ofDocument at hread
  repeat obtain ⟨_, _, hread⟩ := bind_eq_ok_iff.mp hread
  rw [← pure_eq_ok_iff.mp hread]
  exact {
    name := Document.read_string_eq_ok_iff.mp ‹_›
    fillLevel := ‹_›
    level5Sets := ‹_›
    level4Sets := ‹_›
    level3Sets := ‹_›
    level2Sets := ‹_›
    lowerLevel := Document.read_string_eq_ok_iff.mp ‹_› }

/-- A core was read from a document, as far as others ask. -/
structure Core.ReadFrom (c : Core) (doc : Document) : Prop where
  name : doc.name? = some c.name
  frequency : doc.read .float "frequency" = .ok c.frequency
  clockScale : doc.read .float "clock_scale" = .ok c.clockScale
  instructionBuffer : doc.read InstructionBuffer.read "DIB" = .ok c.instructionBuffer
  itlb : doc.slot? .itlb = some c.itlb
  dtlb : doc.slot? .dtlb = some c.dtlb
  l1i : doc.slot? .l1i = some c.l1i
  l1d : doc.slot? .l1d = some c.l1d
  branchPredictors : doc.read .strings "branch_predictor" = .ok c.branchPredictors
  targetBuffers : doc.read .strings "btb" = .ok c.targetBuffers
  options : c.options = Core.schema.others doc

theorem Core.readFrom_of_ofDocument {c : Core} (hread : Core.ofDocument doc = .ok c) :
    c.ReadFrom doc := by
  unfold Core.ofDocument at hread
  repeat obtain ⟨_, _, hread⟩ := bind_eq_ok_iff.mp hread
  rw [← pure_eq_ok_iff.mp hread]
  -- a slot is a field that holds the name of a record
  exact {
    name := Document.read_string_eq_ok_iff.mp ‹_›
    frequency := ‹_›
    clockScale := ‹_›
    instructionBuffer := ‹_›
    itlb := Document.read_string_eq_ok_iff.mp ‹_›
    dtlb := Document.read_string_eq_ok_iff.mp ‹_›
    l1i := Document.read_string_eq_ok_iff.mp ‹_›
    l1d := Document.read_string_eq_ok_iff.mp ‹_›
    branchPredictors := ‹_›
    targetBuffers := ‹_›
    options := rfl }

theorem PhysicalMemory.name?_of_ofDocument {m : PhysicalMemory}
    (hread : PhysicalMemory.ofDocument doc = .ok m) : doc.name? = some m.name := by
  unfold PhysicalMemory.ofDocument at hread
  repeat obtain ⟨_, _, hread⟩ := bind_eq_ok_iff.mp hread
  rw [← pure_eq_ok_iff.mp hread]
  exact Document.read_string_eq_ok_iff.mp ‹_›

/-- A mapping is read by the keys of an instruction buffer. -/
structure InstructionBuffer.ReadFrom (b : InstructionBuffer) (doc : Document) : Prop where
  window : doc.read .word "window_size" = .ok b.window
  sets : doc.read .word "sets" = .ok b.sets
  ways : doc.read .word "ways" = .ok b.ways

theorem InstructionBuffer.readFrom_of_ofDocument {b : InstructionBuffer}
    (hread : InstructionBuffer.ofDocument doc = .ok b) : b.ReadFrom doc := by
  unfold InstructionBuffer.ofDocument at hread
  repeat obtain ⟨_, _, hread⟩ := bind_eq_ok_iff.mp hread
  rw [← pure_eq_ok_iff.mp hread]
  exact { window := ‹_›, sets := ‹_›, ways := ‹_› }

/-- A list is read by place, and there is nothing else in it. -/
theorem InstructionBuffer.eq_of_ofItems {items : List Json} {b : InstructionBuffer}
    (hread : InstructionBuffer.ofItems items = .ok b) :
    items = [.ofNat b.window, .ofNat b.sets, .ofNat b.ways] := by
  unfold InstructionBuffer.ofItems at hread
  obtain ⟨numbers, hnumbers, hread⟩ := bind_eq_ok_iff.mp hread
  split at hread
  · next window sets ways =>
    split at hread
    · next hlength =>
      rw [pure_eq_ok_iff] at hread
      subst hread
      -- the list has three items, so none is left out
      rw [List.take_of_length_le (Nat.le_of_eq hlength), mapM_eq_ok_iff] at hnumbers
      simp only [List.forall₂_cons_right_iff, List.forall₂_nil_right_iff] at hnumbers
      obtain ⟨first, _, hfirst, ⟨second, _, hsecond, ⟨third, _, hthird, rfl, rfl⟩, rfl⟩, rfl⟩ :=
        hnumbers
      rw [(Reader.eq_ofNat_of_word hfirst).1, (Reader.eq_ofNat_of_word hsecond).1,
        (Reader.eq_ofNat_of_word hthird).1]
    · cases hread
  · cases hread

end MemoryHierarchy
