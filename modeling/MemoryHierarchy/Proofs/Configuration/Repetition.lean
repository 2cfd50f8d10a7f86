import Mathlib.Algebra.Order.Floor.Div
import MemoryHierarchy.Proofs.Configuration.Normalized

/-!
# Elements repeated to a length

To get a number of elements from a list, each element is repeated equally often and the rest is cut
off. So there are runs of one length, the quotient rounded up, and only the last one that is not
empty may be shorter. Rounding up can leave nothing for the last elements: of three elements that
are repeated to four, the third one gets no place.

Cores are made of their templates in this way, so the index of a core tells its template
(`exists_template_of_core`).
-/

namespace MemoryHierarchy

variable {α : Type} {times : Nat}

/-- How often an element is repeated before the rest is cut off. -/
def runLength (count n : Nat) : Nat := if n = 0 then 1 else n ⌈/⌉ count

theorem runLength_eq {count : Nat} (hcount : 0 < count) (n : Nat) :
    (n - 1) / count + 1 = runLength count n := by
  unfold runLength
  split
  · next hn => rw [hn, Nat.zero_sub, Nat.zero_div]
  · next hn =>
    have hshift : n + count - 1 = n - 1 + count := by omega
    rw [Nat.ceilDiv_eq_add_pred_div, hshift, Nat.add_div_right _ hcount]

theorem runLength_pos {count : Nat} (hcount : 0 < count) (n : Nat) : 0 < runLength count n := by
  rw [← runLength_eq hcount]
  exact Nat.succ_pos _

/-- There are enough repetitions to take any number of elements of them. -/
theorem le_mul_runLength {count : Nat} (hcount : 0 < count) (n : Nat) :
    n ≤ count * runLength count n := by
  have := Nat.lt_mul_div_succ (n - 1) hcount
  rw [← runLength_eq hcount]
  omega

/-- The entries of equal runs. -/
theorem getElem?_flatMap_replicate (htimes : 0 < times) (elements : List α) (i : Nat) :
    (elements.flatMap (List.replicate times ·))[i]? = elements[i / times]? := by
  induction elements generalizing i with
  | nil => simp
  | cons element elements ih =>
    rw [List.flatMap_cons, List.getElem?_append, List.length_replicate]
    split
    · next hi =>
      rw [List.getElem?_replicate, if_pos hi, Nat.div_eq_of_lt hi, List.getElem?_cons_zero]
    · next hi =>
      -- the element has its run before the place, and the place is one run further on
      obtain ⟨j, rfl⟩ := Nat.exists_eq_add_of_le' (Nat.le_of_not_lt hi)
      rw [Nat.add_sub_cancel, ih, Nat.add_div_right _ htimes, List.getElem?_cons_succ]

/-- What is left of equal runs that are cut off. The elements are numbered from any number on, as
they are in the middle of a list. -/
theorem take_flatMap_replicate (times : Nat) (elements : List α) (n first : Nat) :
    (elements.flatMap (List.replicate times ·)).take (n - first * times) =
      (elements.zipIdx first).flatMap fun (element, j) =>
        List.replicate (min times (n - j * times)) element := by
  induction elements generalizing first with
  | nil => simp
  | cons element elements ih =>
    have hrest : n - first * times - times = n - (first + 1) * times := by
      rw [Nat.succ_mul, Nat.sub_sub]
    rw [List.zipIdx_cons, List.flatMap_cons, List.flatMap_cons, List.take_append,
      List.length_replicate, hrest, ih, List.take_replicate, Nat.min_comm]

theorem repeatToLength_eq {elements : List α} (hne : elements ≠ []) (n : Nat) :
    repeatToLength elements n =
      (elements.flatMap (List.replicate (runLength elements.length n) ·)).take n := by
  rw [repeatToLength, runLength_eq (List.length_pos_iff.mpr hne)]

theorem length_repeatToLength {elements : List α} (hne : elements ≠ []) (n : Nat) :
    (repeatToLength elements n).length = n := by
  have henough := le_mul_runLength (List.length_pos_iff.mpr hne) n
  rw [repeatToLength_eq hne, List.length_take, List.length_flatMap]
  simpa using henough

/-- An entry is found by dividing its place by the length of a run. -/
theorem getElem?_repeatToLength (elements : List α) {n i : Nat} (hi : i < n) :
    (repeatToLength elements n)[i]? = elements[i / runLength elements.length n]? := by
  by_cases hne : elements = []
  · simp [hne, repeatToLength]
  · rw [repeatToLength_eq hne, List.getElem?_take_of_lt hi,
      getElem?_flatMap_replicate (runLength_pos (List.length_pos_iff.mpr hne) n)]

/-- **Elements are repeated in equal runs.** From a list with elements any number of them is taken,
and from an empty list none. An entry is found by dividing its place by the length of a run; and an
element has one run, which is cut off where the entries end. -/
theorem repeatToLength_runs (elements : List α) (n : Nat) :
    let f := runLength elements.length n
    (repeatToLength elements n).length = (if elements = [] then 0 else n) ∧
      (∀ i < n, (repeatToLength elements n)[i]? = elements[i / f]?) ∧
      repeatToLength elements n = elements.zipIdx.flatMap fun (element, j) =>
        List.replicate (min f (n - j * f)) element := by
  intro f
  refine ⟨?_, fun i hi => getElem?_repeatToLength elements hi, ?_⟩
  · split
    · next hempty => simp [hempty, repeatToLength]
    · next hne => exact length_repeatToLength hne n
  · by_cases hne : elements = []
    · simp [hne, repeatToLength]
    · have hcut := take_flatMap_replicate f elements n 0
      rw [Nat.zero_mul, Nat.sub_zero] at hcut
      rw [repeatToLength_eq hne, hcut]

/-- Of three elements that are repeated to four entries the third one gets none. -/
theorem repeatToLength_runs_fourOfThree :
    runLength 3 4 = 2 ∧ (repeatToLength ["a", "b", "c"] 4).length = 4 ∧ 3 < 4 ∧
      (repeatToLength ["a", "b", "c"] 4)[3]? = some "b" ∧
      repeatToLength ["a", "b", "c"] 4 = ["a", "a", "b", "b"] := by
  obtain ⟨hlength, hentry, hruns⟩ := repeatToLength_runs ["a", "b", "c"] 4
  have hlast : 3 < 4 := by decide
  exact ⟨rfl, hlength, hlast, hentry 3 hlast, hruns⟩

namespace NormalizedConfiguration

/-- **A core is made of the template whose run its index is in**, and of what the document says for
all cores. -/
theorem exists_template_of_core {doc : Document} {templates : List Document} {count : Nat}
    {cores : List NamedCore} (hread : normalizeCores doc templates count = .ok cores) {i : Nat}
    {named : NamedCore} (hcore : cores[i]? = some named) :
    ∃ template, templates[i / runLength templates.length count]? = some template ∧
      normalizeCore (Document.mergeAll [template, sharedAttributes doc]) i = .ok named := by
  obtain ⟨hlength, hcores⟩ := List.forall₂_iff_get.mp (normalizeCores_eq_ok_iff.mp hread)
  obtain ⟨hi, rfl⟩ := List.getElem?_eq_some_iff.mp hcore
  rw [List.length_zipIdx] at hlength
  have hplace : i < (repeatToLength templates count).length := hlength ▸ hi
  have hcount : i < count := Nat.lt_of_lt_of_le hplace (List.length_take_le _ _)
  refine ⟨(repeatToLength templates count)[i], ?_, ?_⟩
  · rw [← getElem?_repeatToLength templates hcount, List.getElem?_eq_getElem hplace]
  · have hnormal := hcores i (by rwa [List.length_zipIdx]) hi
    rw [List.get_eq_getElem, List.get_eq_getElem, List.getElem_zipIdx, Nat.zero_add] at hnormal
    exact hnormal

end NormalizedConfiguration

end MemoryHierarchy
