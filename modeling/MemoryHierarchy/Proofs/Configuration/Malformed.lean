import MemoryHierarchy.Proofs.Configuration.Declarations

/-!
# Malformed documents

Normalization stops at the first value of a wrong shape. The shapes are asked for by many readers,
one for each kind of place, and some of the places are not in the document itself: a core is read
after its template has been merged with what the document says for all cores, and a template that no
core is made of is never read. `Malformed` says in one place what is refused.

`Reads shape result` is what is proved of each reader: it gives a value where what it reads has the
shape, and a structural error where it has not. Readers are put together by `bind` and `mapM`, and
so are their shapes.
-/

namespace MemoryHierarchy

/-! ## Shapes

A document is refused for the shape of some value in it. The shapes are few, and each is a predicate
on values; a value that is absent is refused nowhere, except for what has no default. -/

namespace Json

def IsString (value : Json) : Prop := ∃ text, value = .string text

def IsMapping (value : Json) : Prop := ∃ fields, value = .object fields

/-- An integer from 0 on and below a bound. -/
def IsNaturalBelow (bound : Nat) (value : Json) : Prop := ∃ n < bound, value = .ofNat n

def IsListOf (shape : Json → Prop) (value : Json) : Prop :=
  ∃ items, value = .array items ∧ ∀ item ∈ items, shape item

/-- A list of mappings, or a mapping of names to mappings. -/
def IsCollection (value : Json) : Prop :=
  value.IsListOf IsMapping ∨
    ∃ entries, value = .object entries ∧ ∀ entry ∈ entries, entry.2.IsMapping

theorem isString_iff {value : Json} : value.IsString ↔ value.string?.isSome := by
  cases value <;> simp [IsString, string?]

theorem isNaturalBelow_iff {bound : Nat} {value : Json} (hbound : bound ≤ UInt64.size) :
    value.IsNaturalBelow bound ↔ ∃ n < bound, value.natural? = some n := by
  constructor
  · rintro ⟨n, hn, rfl⟩
    exact ⟨n, hn, natural?_ofNat (hn.trans_le hbound)⟩
  · rintro ⟨n, hn, hnatural⟩
    exact ⟨n, hn, eq_ofNat_of_natural? hnatural⟩

end Json

namespace Document

/-- What is under a key, if anything is, has a shape. -/
def IfPresent (doc : Document) (key : String) (shape : Json → Prop) : Prop :=
  ∀ value, doc.get? key = some value → shape value

variable {doc : Document} {key : String} {shape : Json → Prop}

theorem ifPresent_of_none (hnone : doc.get? key = none) : doc.IfPresent key shape := by
  intro value hvalue
  rw [hnone] at hvalue
  cases hvalue

theorem ifPresent_iff_of_some {value : Json} (hvalue : doc.get? key = some value) :
    doc.IfPresent key shape ↔ shape value := by
  constructor
  · exact fun h => h value hvalue
  · intro h other hother
    rw [hvalue, Option.some.injEq] at hother
    exact hother ▸ h

theorem ifPresent_congr {doc' : Document} (hget : doc'.get? key = doc.get? key) :
    doc'.IfPresent key shape ↔ doc.IfPresent key shape := by
  rw [IfPresent, IfPresent, hget]

theorem get?_append (doc doc' : Document) (key : String) :
    get? (doc ++ doc') key = (doc.get? key).or (doc'.get? key) :=
  List.lookup_append

theorem get?_flatten_eq_none {docs : List Document} :
    get? docs.flatten key = none ↔ ∀ doc ∈ docs, doc.get? key = none := by
  induction docs with
  | nil => simp
  | cons doc docs ih =>
    rw [List.flatten_cons, get?_append, Option.or_eq_none_iff, ih, List.forall_mem_cons]

/-- The part of a document under some keys. -/
theorem get?_restricted (doc : Document) (keys : List String) (key : String) :
    get? (keys.filterMap fun key => (doc.get? key).map fun value => (key, value)) key =
      if key ∈ keys then doc.get? key else none := by
  induction keys with
  | nil => rfl
  | cons first keys ih =>
    by_cases hfirst : first = key
    · subst hfirst
      cases hvalue : doc.get? first with
      | none => simp [hvalue, ih]
      | some value => simp [hvalue, get?_cons]
    · cases hvalue : doc.get? first with
      | none => simp [hvalue, ih, Ne.symm hfirst]
      | some value => simp [hvalue, get?_cons, hfirst, ih, Ne.symm hfirst]

end Document

namespace NormalizedConfiguration

/-- What is refused in a core, after its template has been merged with what is said for all cores. A
value that is said for all of them can be at fault although the template is not. -/
inductive MalformedCore (core : Document) : Prop where
  | name (h : ¬core.IfPresent "name" Json.IsString)
  | slot (slot : Slot)
      (h : ¬core.IfPresent slot.key fun value => value.IsString ∨ value.IsMapping)
  /-- The name of a record that is declared in a slot. -/
  | slotName (slot : Slot) (fields : Document) (hslot : core.get? slot.key = some (.object fields))
      (h : ¬fields.IfPresent "name" Json.IsString)

/-- What is refused in a document. Each constructor is one of the shapes that a document has to
have, so that a document with none of these faults is read. -/
inductive Malformed (doc : Document) : Prop where
  | coreCount (h : ¬doc.IfPresent "num_cores" (Json.IsNaturalBelow (maxCores + 1)))
  | templates (h : ¬doc.IfPresent "ooo_cpu" (Json.IsListOf Json.IsMapping))
  | core (core : Document) (hcore : core ∈ writtenCores doc ((doc.natural? "num_cores").getD 1))
      (h : MalformedCore core)
  | collection (key : String) (hkey : key ∈ collectionKeys)
      (h : ¬doc.IfPresent key Json.IsCollection)
  | directories (key : String) (hkey : key ∈ directoryKeys)
      (h : ¬doc.IfPresent key (Json.IsListOf Json.IsString))
  | size (key : String) (hkey : key ∈ sizeKeys)
      (h : ¬doc.IfPresent key (Json.IsNaturalBelow UInt64.size))
  | memory (key : String) (hkey : key ∈ ["physical_memory", "virtual_memory"])
      (h : ¬doc.IfPresent key Json.IsMapping)

/-! ## Readers of shapes

A reader corresponds to a shape if it gives a value where there is the shape and a structural error
elsewhere. This is kept by everything that readers are put together with, so the reader of documents
is done part by part, in the order of its definition. -/

/-- A value is read where there is the shape, and a structural error where there is not. The error
may be any structural one; which one it is depends on the first fault that is met. -/
inductive Reads {α : Type} (shape : Prop) : Except CompileError α → Prop where
  | value (h : shape) (a : α) : Reads shape (.ok a)
  | refused (h : ¬shape) (path expected : String) (found : Json) :
      Reads shape (.error (.structural path expected found))

namespace Reads

variable {α β : Type} {shape shape' : Prop} {x : Except CompileError α}

theorem congr (hsame : shape ↔ shape') (hx : Reads shape x) : Reads shape' x := by
  cases hx with
  | value h a => exact .value (hsame.mp h) a
  | refused h path expected found => exact .refused (mt hsame.mpr h) path expected found

/-- The second reader has a say only where the first one has read something. -/
theorem bind {f : α → Except CompileError β} (hx : Reads shape x)
    (hf : shape → ∀ a, x = .ok a → Reads shape' (f a)) : Reads (shape ∧ shape') (x >>= f) := by
  cases hx with
  | value h a =>
    show Reads (shape ∧ shape') (f a)
    exact (hf h a rfl).congr ⟨fun h' => ⟨h, h'⟩, And.right⟩
  | refused h path expected found => exact .refused (fun hboth => h hboth.1) path expected found

theorem pure (a : α) : Reads True (Pure.pure a) := .value trivial a

theorem mapM {f : α → Except CompileError β} {shape : α → Prop} {xs : List α}
    (hf : ∀ x ∈ xs, Reads (shape x) (f x)) : Reads (∀ x ∈ xs, shape x) (xs.mapM f) := by
  induction xs with
  | nil => exact .value (by simp) []
  | cons x xs ih =>
    rw [List.mapM_cons]
    have hx := hf x List.mem_cons_self
    have hxs := ih fun other hother => hf other (List.mem_cons_of_mem _ hother)
    refine (hx.bind fun _ _ _ => hxs.bind fun _ _ _ => Reads.pure _).congr ?_
    rw [and_true, List.forall_mem_cons]

theorem forM {f : α → Except CompileError Unit} {shape : α → Prop} {xs : List α}
    (hf : ∀ x ∈ xs, Reads (shape x) (f x)) : Reads (∀ x ∈ xs, shape x) (xs.forM f) := by
  induction xs with
  | nil => exact .value (by simp) ()
  | cons x xs ih =>
    show Reads _ (f x >>= fun _ => xs.forM f)
    have hxs := ih fun other hother => hf other (List.mem_cons_of_mem _ hother)
    refine ((hf x List.mem_cons_self).bind fun _ _ _ => hxs).congr ?_
    rw [List.forall_mem_cons]

/-- There is nothing under the key. -/
theorem absent {doc : Document} {key : String} {shape : Json → Prop}
    (hnone : doc.get? key = none) (a : α) : Reads (doc.IfPresent key shape) (.ok a) :=
  .value (Document.ifPresent_of_none hnone) a

/-- The reader has found a value under the key. -/
theorem present {doc : Document} {key : String} {shape : Json → Prop} {value : Json}
    (hvalue : doc.get? key = some value) (hx : Reads (shape value) x) :
    Reads (doc.IfPresent key shape) x :=
  hx.congr (Document.ifPresent_iff_of_some hvalue).symm

theorem error_iff (hx : Reads shape x) :
    (∃ path expected found, x = .error (.structural path expected found)) ↔ ¬shape := by
  cases hx with
  | value h a => simpa using h
  | refused h path expected found => exact iff_of_true ⟨path, expected, found, rfl⟩ h

theorem ok_iff (hx : Reads shape x) : (∃ a, x = .ok a) ↔ shape := by
  cases hx with
  | value h a => exact iff_of_true ⟨a, rfl⟩ h
  | refused h path expected found => simpa using h

end Reads

section

variable (doc : Document) (key : String)

theorem reads_coreCount :
    Reads (doc.IfPresent "num_cores" (Json.IsNaturalBelow (maxCores + 1))) (coreCount doc) := by
  have hbound : maxCores + 1 ≤ UInt64.size := by decide
  unfold coreCount
  split
  · next hnone => exact .absent hnone _
  · next value hvalue =>
    -- a number in range is read, a greater one is refused, and so is what is no number
    refine .present hvalue (.congr (Json.isNaturalBelow_iff hbound).symm ?_)
    split
    · next n hn =>
      split
      · next hmax => exact .value ⟨n, Nat.lt_succ_of_le hmax, hn⟩ n
      · next hmax =>
        refine .refused ?_ _ _ _
        rintro ⟨m, hm, hvalue⟩
        rw [hn, Option.some.injEq] at hvalue
        omega
    · next hnone =>
      refine .refused ?_ _ _ _
      rintro ⟨m, _, hvalue⟩
      rw [hnone] at hvalue
      cases hvalue

theorem reads_mappingsOf (items : List Json) :
    Reads (∀ item ∈ items, item.IsMapping) (mappingsOf key items) := by
  have hread : Reads (∀ entry ∈ items.zipIdx, entry.1.IsMapping) (mappingsOf key items) := by
    refine Reads.mapM ?_
    rintro ⟨item, i⟩ _
    cases item with
    | object fields => exact .value ⟨fields, rfl⟩ fields
    | _ => exact .refused (by simp [Json.IsMapping]) _ _ _
  refine hread.congr ?_
  rw [← List.forall_mem_map (f := Prod.fst), List.zipIdx_map_fst]

theorem reads_namedByKey (entry : String × Json) :
    Reads entry.2.IsMapping (namedByKey key entry.1 entry.2) := by
  obtain ⟨name, item⟩ := entry
  cases item with
  | object fields => exact .value ⟨fields, rfl⟩ _
  | _ => exact .refused (by simp [Json.IsMapping]) _ _ _

theorem reads_coreTemplates :
    Reads (doc.IfPresent "ooo_cpu" (Json.IsListOf Json.IsMapping)) (coreTemplates doc) := by
  unfold coreTemplates
  split
  · next hnone => exact .absent hnone _
  · next items hitems =>
    refine .present hitems ((reads_mappingsOf "ooo_cpu" items).congr ?_)
    simp [Json.IsListOf]
  · next other hlist hother =>
    refine .present hother (.refused ?_ _ _ _)
    rintro ⟨items, rfl, _⟩
    exact hlist items rfl

theorem reads_readCoreName (core : Document) (index : Nat) :
    Reads (core.IfPresent "name" Json.IsString) (readCoreName core index) := by
  unfold readCoreName
  split
  · next hnone => exact .absent hnone _
  · next name hname => exact .present hname (.value ⟨name, rfl⟩ _)
  · next other hstring hother =>
    refine .present hother (.refused ?_ _ _ _)
    rintro ⟨name, rfl⟩
    exact hstring name rfl

theorem reads_readSlot (core : Document) (name : String) (slot : Slot) :
    Reads (core.IfPresent slot.key (fun value => value.IsString ∨ value.IsMapping) ∧
        ∀ fields, core.get? slot.key = some (.object fields) →
          Document.IfPresent fields "name" Json.IsString)
      (readSlot core name slot) := by
  -- nothing, a name, a mapping, or anything else, which is refused
  unfold readSlot
  dsimp only
  split
  · next hnone =>
    refine .value ⟨Document.ifPresent_of_none hnone, ?_⟩ _
    simp [hnone]
  · next reference hreference =>
    refine .value ⟨(Document.ifPresent_iff_of_some hreference).mpr (.inl ⟨reference, rfl⟩), ?_⟩ _
    simp [hreference]
  · next fields hfields =>
    have hmapping : core.IfPresent slot.key fun value => value.IsString ∨ value.IsMapping :=
      (Document.ifPresent_iff_of_some hfields).mpr (.inr ⟨fields, rfl⟩)
    -- in a mapping the name is left to check, which may be absent
    have hsame : (∀ fields', core.get? slot.key = some (.object fields') →
        Document.IfPresent fields' "name" Json.IsString) ↔
          Document.IfPresent fields "name" Json.IsString := by
      simp [hfields]
    rw [hsame]
    split
    · next hnone => exact .value ⟨hmapping, Document.ifPresent_of_none hnone⟩ _
    · next record hrecord =>
      exact .value ⟨hmapping, (Document.ifPresent_iff_of_some hrecord).mpr ⟨record, rfl⟩⟩ _
    · next other hstring hother =>
      refine .refused ?_ _ _ _
      rintro ⟨_, hname⟩
      obtain ⟨record, rfl⟩ := (Document.ifPresent_iff_of_some hother).mp hname
      exact hstring record rfl
  · next other hstring hmapping hother =>
    refine .refused ?_ _ _ _
    rintro ⟨hshape, _⟩
    rcases (Document.ifPresent_iff_of_some hother).mp hshape with ⟨reference, rfl⟩ | ⟨fields, rfl⟩
    · exact hstring reference rfl
    · exact hmapping fields rfl

theorem not_malformedCore_iff {core : Document} :
    ¬MalformedCore core ↔ core.IfPresent "name" Json.IsString ∧
      ∀ slot : Slot, core.IfPresent slot.key (fun value => value.IsString ∨ value.IsMapping) ∧
        ∀ fields, core.get? slot.key = some (.object fields) →
          Document.IfPresent fields "name" Json.IsString := by
  constructor
  · intro h
    refine ⟨by_contra fun hname => h (.name hname), fun slot => ⟨?_, fun fields hfields => ?_⟩⟩
    · exact by_contra fun hslot => h (.slot slot hslot)
    · exact by_contra fun hname => h (.slotName slot fields hfields hname)
  · rintro ⟨hname, hslots⟩ h
    cases h with
    | name h => exact h hname
    | slot slot h => exact h (hslots slot).1
    | slotName slot fields hslot h => exact h ((hslots slot).2 fields hslot)

theorem reads_normalizeCore (core : Document) (index : Nat) :
    Reads (¬MalformedCore core) (normalizeCore core index) := by
  have hslots (name : String) := Reads.mapM fun slot (_ : slot ∈ Slot.all) =>
    reads_readSlot core name slot
  refine ((reads_readCoreName core index).bind fun _ name _ =>
    (hslots name).bind fun _ _ _ => Reads.pure _).congr ?_
  simp only [not_malformedCore_iff, and_true, mem_slots, forall_const]

theorem reads_collection : Reads (doc.IfPresent key Json.IsCollection) (collection doc key) := by
  unfold collection
  split
  · next hnone => exact .absent hnone _
  · next items hitems =>
    refine .present hitems ((reads_mappingsOf key items).congr ?_)
    simp [Json.IsCollection, Json.IsListOf]
  · next entries hentries =>
    have hread := Reads.mapM fun entry (_ : entry ∈ entries) => reads_namedByKey key entry
    refine .present hentries (hread.congr ?_)
    simp [Json.IsCollection, Json.IsListOf]
  · next other hlist hmapping hother =>
    refine .present hother (.refused ?_ _ _ _)
    rintro (⟨items, rfl, _⟩ | ⟨entries, rfl, _⟩)
    · exact hlist items rfl
    · exact hmapping entries rfl

theorem reads_singleton : Reads (doc.IfPresent key Json.IsMapping) (singleton doc key) := by
  unfold singleton
  split
  · next hnone => exact .absent hnone _
  · next fields hfields => exact .present hfields (.value ⟨fields, rfl⟩ _)
  · next other hmapping hother =>
    refine .present hother (.refused ?_ _ _ _)
    rintro ⟨fields, rfl⟩
    exact hmapping fields rfl

theorem reads_directoryField :
    Reads (doc.IfPresent key (Json.IsListOf Json.IsString)) (directoryField doc key) := by
  unfold directoryField
  split
  · next hnone => exact .absent hnone _
  · next items hitems =>
    have hshape : (items.all fun item => item.string?.isSome) ↔
        (Json.array items).IsListOf Json.IsString := by
      simp [Json.IsListOf, Json.isString_iff]
    refine .present hitems (.congr hshape ?_)
    split
    · next hall => exact .value hall _
    · next hall => exact .refused hall _ _ _
  -- whatever is no list has the wrong shape for lack of items
  · next other hlist hother =>
    refine .present hother (.refused ?_ _ _ _)
    rintro ⟨items, rfl, _⟩
    exact hlist items rfl

theorem reads_checkSize (root : Document) :
    Reads (root.IfPresent key (Json.IsNaturalBelow UInt64.size)) (checkSize root key) := by
  unfold checkSize
  split
  · next hnone => exact .absent hnone _
  · next value hvalue =>
    have hshape : value.natural?.isSome ↔ value.IsNaturalBelow UInt64.size := by
      rw [Json.isNaturalBelow_iff le_rfl, Option.isSome_iff_exists]
      exact exists_congr fun n => (and_iff_right_of_imp Json.natural?_lt).symm
    refine .present hvalue (.congr hshape ?_)
    split
    · next hnatural => exact .value hnatural _
    · next hnatural => exact .refused hnatural _ _ _

theorem get?_of_directoryField {fields : Document} (hread : directoryField doc key = .ok fields)
    {other : String} (hne : other ≠ key) : fields.get? other = none := by
  unfold directoryField at hread
  split at hread
  · cases hread
    rfl
  · split at hread
    · cases hread
      rw [Document.get?_cons, if_neg hne.symm, Document.get?_nil]
    · cases hread
  · cases hread

/-- Beside its directories a root has what its document has under the keys that are kept. -/
theorem get?_root {directories : List Document}
    (hread : directoryKeys.mapM (directoryField doc) = .ok directories) {key : String}
    (hother : key ∉ directoryKeys) :
    Document.get? ((rootKeys.filterMap fun key => (doc.get? key).map fun value => (key, value)) ++
      directories.flatten) key = if key ∈ rootKeys then doc.get? key else none := by
  have hdirectories : Document.get? directories.flatten key = none := by
    rw [Document.get?_flatten_eq_none]
    intro fields hfields
    obtain ⟨key', hkey', hfield⟩ := exists_of_mem_right (mapM_eq_ok_iff.mp hread) hfields
    exact get?_of_directoryField doc key' hfield (ne_of_mem_of_not_mem hkey' hother).symm
  rw [Document.get?_append, Document.get?_restricted, hdirectories, Option.or_none]

/-- The sizes of a root are those of its document. -/
theorem get?_root_of_mem_sizeKeys {directories : List Document}
    (hread : directoryKeys.mapM (directoryField doc) = .ok directories) {key : String}
    (hkey : key ∈ sizeKeys) :
    Document.get? ((rootKeys.filterMap fun key => (doc.get? key).map fun value => (key, value)) ++
      directories.flatten) key = doc.get? key := by
  obtain ⟨hroot, hother⟩ : key ∈ rootKeys ∧ key ∉ directoryKeys :=
    (by decide : ∀ key ∈ sizeKeys, key ∈ rootKeys ∧ key ∉ directoryKeys) key hkey
  exact (get?_root doc hread hother).trans (if_pos hroot)

theorem reads_rootOf :
    Reads ((∀ key ∈ directoryKeys, doc.IfPresent key (Json.IsListOf Json.IsString)) ∧
        ∀ key ∈ sizeKeys, doc.IfPresent key (Json.IsNaturalBelow UInt64.size))
      (rootOf doc) := by
  -- a root is checked that has the sizes of the document
  have hsizes (root : Document) (hroot : ∀ key ∈ sizeKeys, root.get? key = doc.get? key) :
      Reads (∀ key ∈ sizeKeys, doc.IfPresent key (Json.IsNaturalBelow UInt64.size))
        (sizeKeys.forM (checkSize root) >>= fun _ => Pure.pure root) := by
    have hchecks := Reads.forM fun key (_ : key ∈ sizeKeys) => reads_checkSize key root
    refine (hchecks.bind fun _ _ _ => Reads.pure root).congr ?_
    rw [and_true]
    exact forall₂_congr fun key hkey => Document.ifPresent_congr (hroot key hkey)
  have hdirectories := Reads.mapM fun key (_ : key ∈ directoryKeys) => reads_directoryField doc key
  exact hdirectories.bind fun _ directories hread =>
    hsizes _ fun _ hkey => get?_root_of_mem_sizeKeys doc hread hkey

end

theorem not_malformed_iff {doc : Document} :
    ¬Malformed doc ↔
      doc.IfPresent "num_cores" (Json.IsNaturalBelow (maxCores + 1)) ∧
      doc.IfPresent "ooo_cpu" (Json.IsListOf Json.IsMapping) ∧
      (∀ core ∈ writtenCores doc ((doc.natural? "num_cores").getD 1), ¬MalformedCore core) ∧
      (∀ key ∈ collectionKeys, doc.IfPresent key Json.IsCollection) ∧
      (∀ key ∈ directoryKeys, doc.IfPresent key (Json.IsListOf Json.IsString)) ∧
      (∀ key ∈ sizeKeys, doc.IfPresent key (Json.IsNaturalBelow UInt64.size)) ∧
      ∀ key ∈ ["physical_memory", "virtual_memory"], doc.IfPresent key Json.IsMapping := by
  constructor
  · intro h
    -- each shape that is missed is a fault of its own
    refine ⟨by_contra fun hcount => h (.coreCount hcount),
      by_contra fun htemplates => h (.templates htemplates),
      fun core hcore hmalformed => h (.core core hcore hmalformed), fun key hkey => ?_,
      fun key hkey => ?_, fun key hkey => ?_, fun key hkey => ?_⟩
    · exact by_contra fun hkind => h (.collection key hkey hkind)
    · exact by_contra fun hkind => h (.directories key hkey hkind)
    · exact by_contra fun hkind => h (.size key hkey hkind)
    · exact by_contra fun hkind => h (.memory key hkey hkind)
  · rintro ⟨hcount, htemplates, hcores, hcollections, hdirectories, hsizes, hmemories⟩ h
    cases h with
    | coreCount h => exact h hcount
    | templates h => exact h htemplates
    | core core hcore h => exact hcores core hcore h
    | collection key hkey h => exact h (hcollections key hkey)
    | directories key hkey h => exact h (hdirectories key hkey)
    | size key hkey h => exact h (hsizes key hkey)
    | memory key hkey h => exact h (hmemories key hkey)

/-- A document that asks for no number of cores has one. -/
theorem eq_of_coreCount {doc : Document} {count : Nat} (hread : coreCount doc = .ok count) :
    (doc.natural? "num_cores").getD 1 = count := by
  obtain ⟨_, hcount⟩ := coreCount_eq_ok hread
  split at hcount
  · rw [hcount, Option.getD_some]
  · next habsent =>
    have hnone : doc.get? "num_cores" = none :=
      Document.contains_eq_false_iff.mp (Bool.eq_false_of_not_eq_true habsent)
    rw [Document.natural?, hnone]
    exact Option.some.inj hcount

/-- The cores that are read are those that the document describes, as many as it asks for. -/
theorem reads_normalizeCores {doc : Document} {count : Nat} {templates : List Document}
    (hcount : coreCount doc = .ok count) (htemplates : coreTemplates doc = .ok templates) :
    Reads (∀ core ∈ writtenCores doc ((doc.natural? "num_cores").getD 1), ¬MalformedCore core)
      (normalizeCores doc templates count) := by
  rw [eq_of_coreCount hcount, writtenCores, ← eq_of_coreTemplates htemplates, List.forall_mem_map]
  refine (Reads.mapM fun entry (_ : entry ∈ (repeatToLength templates count).zipIdx) =>
    reads_normalizeCore (Document.mergeAll [entry.1, sharedAttributes doc]) entry.2).congr ?_
  nth_rewrite 2 [← List.zipIdx_map_fst 0 (repeatToLength templates count)]
  rw [List.forall_mem_map]

theorem reads_ofDocument (doc : Document) : Reads (¬Malformed doc) (ofDocument doc) := by
  refine ((reads_coreCount doc).bind fun _ count hcount =>
    (reads_coreTemplates doc).bind fun _ templates htemplates =>
    (reads_normalizeCores hcount htemplates).bind fun _ cores _ =>
    (reads_collection doc "caches").bind fun _ _ _ =>
    (reads_collection doc "ptws").bind fun _ _ _ =>
    (reads_rootOf doc).bind fun _ _ _ =>
    (reads_singleton doc "physical_memory").bind fun _ _ _ =>
    (reads_singleton doc "virtual_memory").bind fun _ _ _ => Reads.pure _).congr ?_
  rw [not_malformed_iff]
  simp only [collectionKeys, List.forall_mem_cons, List.not_mem_nil, IsEmpty.forall_iff,
    implies_true, and_true, and_assoc]

/-- **Exactly the malformed documents are refused**, each with a structural error, and every other
document is normalized. -/
theorem ofDocument_eq_structural_iff (doc : Document) :
    ((∃ path expected found, ofDocument doc = .error (.structural path expected found)) ↔
        Malformed doc) ∧
      ((∃ n, ofDocument doc = .ok n) ↔ ¬Malformed doc) := by
  have hread := reads_ofDocument doc
  exact ⟨hread.error_iff.trans not_not, hread.ok_iff⟩

/-- A template that no core is made of may hold anything. -/
example : ∃ n, ofDocument [("num_cores", .ofNat 1),
    ("ooo_cpu", .array [.object [], .object [("L1D", .ofNat 7)]])] = .ok n := by
  decide +kernel

end NormalizedConfiguration

end MemoryHierarchy
