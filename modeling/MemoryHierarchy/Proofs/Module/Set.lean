import Mathlib.Data.List.Nodup
import Mathlib.Data.Nat.Bitwise
import MemoryHierarchy.Module.Mask

/-!
# Sets of modules stay consistent

A set grows by one insertion after the other. `ModuleSet.Consistent` is what every insertion keeps:
each module has the bit of its place, no two modules have the same name, and every alias stands for
a module of the set. Of a consistent set the constants can be read back from a mask, because a bit
belongs to one module only: `enables_maskOf_iff` says that a module is enabled by a mask iff its
name is among those the mask was made of.
-/

namespace MemoryHierarchy

theorem ModuleKind.mem_all (kind : ModuleKind) : kind ∈ all := by
  cases kind <;> decide

namespace ModuleSet

/-! ## Insertions

The invariant of a set: the bit of a module is its place, no two modules share a name, and each
alias means a module of the set. -/

/-- What insertions keep. Bits are places, so that no two modules share one; names are distinct; and
no alias leads nowhere. -/
structure Consistent (s : ModuleSet) : Prop where
  bits : ∀ (i : Nat) (m : ModuleInfo), s.modules[i]? = some m → m.bit = i
  names : (s.modules.map ModuleInfo.name).Nodup
  aliases : ∀ (requested name : String), s.resolve? requested = some name →
    ∃ m ∈ s.modules, m.name = name

theorem find?_isSome_iff {s : ModuleSet} {name : String} :
    (s.find? name).isSome = true ↔ ∃ m ∈ s.modules, m.name = name := by
  rw [find?, List.find?_isSome]
  simp only [decide_eq_true_eq]

theorem consistent_empty (kind : ModuleKind) : (empty kind).Consistent where
  bits := by simp [empty]
  names := by simp [empty]
  aliases := by simp [empty, resolve?]

/-- A module that is new goes behind the others. -/
theorem modules_prefix_insert (s : ModuleSet) (requested : Option String) (data : ModuleData) :
    s.modules <+: (s.insert requested data).modules := by
  simp only [insert]
  split
  · exact List.prefix_rfl
  · exact List.prefix_append _ _

/-- A module is not lost by an insertion. -/
theorem mem_insert_of_mem {s : ModuleSet} {m : ModuleInfo} (hmem : m ∈ s.modules)
    (requested : Option String) (data : ModuleData) : m ∈ (s.insert requested data).modules :=
  (s.modules_prefix_insert requested data).subset hmem

/-- What an insertion brings is the module that is inserted. -/
theorem mem_or_data_eq_of_mem_insert {s : ModuleSet} {requested : Option String}
    {data : ModuleData} {m : ModuleInfo} (hm : m ∈ (s.insert requested data).modules) :
    m ∈ s.modules ∨ m.data = data := by
  simp only [insert] at hm
  split at hm
  · exact Or.inl hm
  · rcases List.mem_append.mp hm with hm | hm
    · exact Or.inl hm
    · rw [List.mem_singleton] at hm
      exact Or.inr (congrArg ModuleInfo.data hm)

/-- The set has a module of the name that was inserted. -/
theorem exists_mem_insert (s : ModuleSet) (requested : Option String) (data : ModuleData) :
    ∃ m ∈ (s.insert requested data).modules, m.name = data.name := by
  by_cases hfound : (s.find? data.name).isSome = true
  · obtain ⟨m, hmem, hname⟩ := find?_isSome_iff.mp hfound
    exact ⟨m, mem_insert_of_mem hmem requested data, hname⟩
  · simp only [insert, if_neg hfound]
    exact ⟨_, List.mem_append_right _ List.mem_cons_self, rfl⟩

theorem resolve?_insert (s : ModuleSet) (requested : Option String) (data : ModuleData)
    (name : String) :
    (s.insert requested data).resolve? name =
      if requested = some name then some data.name else s.resolve? name := by
  unfold resolve? insert
  cases requested with
  | none => simp
  | some key =>
    simp only [Option.some.injEq, Std.ExtTreeMap.getElem?_insert, Std.compare_eq_iff_eq]

theorem Consistent.insert {s : ModuleSet} (h : s.Consistent) (requested : Option String)
    (data : ModuleData) : (s.insert requested data).Consistent where
  bits := by
    intro i m hm
    simp only [ModuleSet.insert] at hm
    split at hm
    · exact h.bits i m hm
    · rw [List.getElem?_append] at hm
      split at hm
      · exact h.bits i m hm
      · next hlen =>
        -- the module is new, and its bit is the length of the list it is added to
        rw [List.getElem?_singleton] at hm
        split at hm
        · next hi =>
          rw [Option.some.injEq] at hm
          rw [← hm]
          show s.modules.length = i
          omega
        · exact absurd hm (by simp)
  names := by
    simp only [ModuleSet.insert]
    split
    · exact h.names
    · next hnew =>
      rw [find?_isSome_iff] at hnew
      rw [List.map_append, List.nodup_append]
      refine ⟨h.names, List.nodup_singleton _, ?_⟩
      intro name hname other hother
      rw [List.map_singleton, List.mem_singleton] at hother
      rw [hother]
      rintro rfl
      exact hnew (List.mem_map.mp hname)
  aliases := by
    intro name target htarget
    rw [resolve?_insert] at htarget
    split at htarget
    · rw [Option.some.injEq] at htarget
      rw [← htarget]
      exact exists_mem_insert s requested data
    · obtain ⟨m, hmem, hname⟩ := h.aliases name target htarget
      exact ⟨m, mem_insert_of_mem hmem requested data, hname⟩

/-! ## The names that are enabled

A name is enabled if it is that of a module which some alias among the requests stands for. -/

theorem mem_enabledFor_iff {s : ModuleSet} {requested : List String} {name : String} :
    name ∈ s.enabledFor requested ↔ ∃ request ∈ requested, s.resolve? request = some name := by
  -- dropping repetitions drops no name
  have hfold : ∀ names kept : List String,
      name ∈ names.foldl (fun kept name => if name ∈ kept then kept else kept ++ [name]) kept ↔
        name ∈ kept ∨ name ∈ names := by
    intro names
    induction names with
    | nil => simp
    | cons first names ih =>
      intro kept
      rw [List.foldl_cons, ih, List.mem_cons]
      split
      · next hmem => grind
      · rw [List.mem_append, List.mem_singleton, or_assoc]
  rw [enabledFor, hfold, List.mem_filterMap]
  simp only [List.not_mem_nil, false_or]

/-! ## Masks

Each module has a word with one bit, and the mask of some modules joins their words. Words are
natural numbers here; the lemmas about bounds say that 64 bits are enough for a set of at most 64
modules. -/

/-- Modules with the same name are the same module. -/
theorem Consistent.eq_of_name_eq {s : ModuleSet} (h : s.Consistent) {m m' : ModuleInfo}
    (hmem : m ∈ s.modules) (hmem' : m' ∈ s.modules) (hname : m.name = m'.name) : m = m' :=
  List.inj_on_of_nodup_map h.names hmem hmem' hname

/-- The constant of a module of the set is the one that is declared for its name. -/
theorem Consistent.constantOf?_name {s : ModuleSet} (h : s.Consistent) {m : ModuleInfo}
    (hmem : m ∈ s.modules) : s.constantOf? m.name = some m.mask := by
  have hnames : s.modules.Pairwise fun a b => a.name ≠ b.name := List.pairwise_map.mp h.names
  have hfind : s.modules.find? (fun other => decide (other.name = m.name)) = some m := by
    rw [List.find?_eq_some_iff_append]
    obtain ⟨before, after, hsplit⟩ := List.append_of_mem hmem
    -- nothing before the module has its name
    refine ⟨by simp, before, after, hsplit, ?_⟩
    intro other hother
    rw [hsplit, List.pairwise_append] at hnames
    simpa using hnames.2.2 other hother m List.mem_cons_self
  rw [constantOf?, constants, List.find?_map]
  have hcomp : (fun c : MaskConstant => decide (c.name = m.name)) ∘
      (fun m : ModuleInfo => (⟨m.name, m.bit⟩ : MaskConstant)) =
        fun other => decide (other.name = m.name) := rfl
  rw [hcomp, hfind]
  rfl

/-- A name that no module goes by has no constant. -/
theorem constantOf?_eq_none {s : ModuleSet} {name : String}
    (habsent : ∀ m ∈ s.modules, m.name ≠ name) : s.constantOf? name = none := by
  rw [constantOf?, Option.map_eq_none_iff, List.find?_eq_none]
  intro c hc
  obtain ⟨m, hmem, rfl⟩ := List.mem_map.mp hc
  simpa using habsent m hmem

/-- The mask of a module holds its bit and no other. -/
theorem testBit_mask (m : ModuleInfo) (i : Nat) : m.mask.testBit i = true ↔ m.bit = i := by
  rw [ModuleInfo.mask, Nat.one_shiftLeft, Nat.testBit_two_pow, decide_eq_true_eq]

/-- A bit is set in the word of a name iff it is the bit of a module of that name. -/
theorem Consistent.testBit_constantOf? {s : ModuleSet} (h : s.Consistent) (name : String)
    (i : Nat) :
    ((s.constantOf? name).getD 0).testBit i = true ↔
      ∃ m ∈ s.modules, m.name = name ∧ m.bit = i := by
  -- a name that no module has gets the word without bits
  by_cases hknown : ∃ m ∈ s.modules, m.name = name
  · obtain ⟨m, hmem, rfl⟩ := hknown
    rw [h.constantOf?_name hmem, Option.getD_some, testBit_mask]
    constructor
    · exact fun hbit => ⟨m, hmem, rfl, hbit⟩
    · rintro ⟨other, hother, hname, hbit⟩
      rw [← h.eq_of_name_eq hother hmem hname]
      exact hbit
  · rw [constantOf?_eq_none (fun m hmem heq => hknown ⟨m, hmem, heq⟩), Option.getD_none,
      Nat.zero_testBit]
    constructor
    · exact fun hfalse => absurd hfalse Bool.false_ne_true
    · rintro ⟨m, hmem, hname, _⟩
      exact absurd ⟨m, hmem, hname⟩ hknown

/-- A bit is set in the mask of some names iff it is the bit of a module with one of the names. -/
theorem Consistent.testBit_maskOf {s : ModuleSet} (h : s.Consistent) (names : List String)
    (i : Nat) :
    (s.maskOf names).testBit i = true ↔ ∃ m ∈ s.modules, m.name ∈ names ∧ m.bit = i := by
  have hfold : ∀ mask : Nat,
      (names.foldl (fun mask name => mask ||| (s.constantOf? name).getD 0) mask).testBit i = true ↔
        mask.testBit i = true ∨ ∃ m ∈ s.modules, m.name ∈ names ∧ m.bit = i := by
    induction names with
    | nil => simp
    | cons name names ih =>
      intro mask
      rw [List.foldl_cons, ih, Nat.testBit_or, Bool.or_eq_true, h.testBit_constantOf?, or_assoc]
      refine or_congr_right ?_
      simp only [List.mem_cons, or_and_right, and_or_left, exists_or]
  rw [maskOf, hfold, Nat.zero_testBit]
  simp only [Bool.false_eq_true, false_or]

/-- Modules with the same bit are the same module. -/
theorem Consistent.eq_of_bit_eq {s : ModuleSet} (h : s.Consistent) {m m' : ModuleInfo}
    (hmem : m ∈ s.modules) (hmem' : m' ∈ s.modules) (hbit : m.bit = m'.bit) : m = m' := by
  obtain ⟨i, hi⟩ := List.getElem?_of_mem hmem
  obtain ⟨j, hj⟩ := List.getElem?_of_mem hmem'
  rw [h.bits i m hi, h.bits j m' hj] at hbit
  rw [hbit, hj, Option.some.injEq] at hi
  exact hi.symm

theorem enables_iff_testBit {s : ModuleSet} (h : s.Consistent) {m : ModuleInfo}
    (hmem : m ∈ s.modules) (mask : Nat) :
    s.enables mask m.name = true ↔ mask.testBit m.bit = true := by
  rw [enables, h.constantOf?_name hmem, Option.getD_some, ModuleInfo.mask, Nat.one_shiftLeft,
    Nat.and_two_pow]
  cases mask.testBit m.bit with
  | false => simp
  | true => simp

/-- **A module is enabled by the mask of some names iff its name is one of them.** Bits are places,
so the mask has the bit of a module only if that module is among them. -/
theorem enables_maskOf_iff {s : ModuleSet} (h : s.Consistent) {m : ModuleInfo}
    (hmem : m ∈ s.modules) (names : List String) :
    s.enables (s.maskOf names) m.name = true ↔ m.name ∈ names := by
  rw [enables_iff_testBit h hmem, h.testBit_maskOf]
  constructor
  · rintro ⟨other, hother, hname, hbit⟩
    rw [← h.eq_of_bit_eq hother hmem hbit]
    exact hname
  · exact fun hname => ⟨m, hmem, hname, rfl⟩

theorem Consistent.bit_lt {s : ModuleSet} (h : s.Consistent) {m : ModuleInfo}
    (hmem : m ∈ s.modules) : m.bit < s.modules.length := by
  obtain ⟨i, hi⟩ := List.getElem?_of_mem hmem
  rw [h.bits i m hi]
  exact (List.getElem?_eq_some_iff.mp hi).1

/-- The constants of a set that is not too large fit a word of 64 bits. -/
theorem Consistent.mask_lt {s : ModuleSet} (h : s.Consistent) (hcount : s.modules.length ≤ 64)
    {m : ModuleInfo} (hmem : m ∈ s.modules) : m.mask < 2 ^ 64 := by
  have := h.bit_lt hmem
  rw [ModuleInfo.mask, Nat.one_shiftLeft]
  exact Nat.pow_lt_pow_right (by omega) (by omega)

/-- So do their masks. -/
theorem Consistent.maskOf_lt {s : ModuleSet} (h : s.Consistent) (hcount : s.modules.length ≤ 64)
    (names : List String) : s.maskOf names < 2 ^ 64 := by
  refine Nat.lt_pow_two_of_testBit _ fun i hi => ?_
  by_contra hbit
  rw [Bool.not_eq_false, h.testBit_maskOf] at hbit
  obtain ⟨m, hmem, _, rfl⟩ := hbit
  have := h.bit_lt hmem
  omega

end ModuleSet

end MemoryHierarchy
