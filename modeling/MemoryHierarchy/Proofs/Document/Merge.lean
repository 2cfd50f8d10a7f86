import Mathlib.Data.List.Forall2
import Mathlib.Data.List.Induction
import MemoryHierarchy.Document.Merge

/-!
# What a merge does to one key

Merging is described key by key: the value under a key after a merge is what the first document has
there, combined with the values that the second one has there, one after the other. Everything else
is read off this one law (`get?_mergeWith`): which keys there are, when a value is the one of the
first or the second document, and that a string that is there stays.

`AgreesOff` says that two documents differ in some keys only, and `Keeps` that one of them has what
the other has and may have more. All passes over records are described by them.
-/

namespace MemoryHierarchy

theorem Json.string?_merge (left right : Json) : (left.merge right).string? = left.string? := by
  cases left <;> cases right <;> simp [Json.merge, Json.string?]

theorem Json.natural?_merge (left right : Json) : (left.merge right).natural? = left.natural? := by
  cases left <;> cases right <;> simp [Json.merge, Json.natural?]

theorem Json.natural?_ofNat {n : Nat} (hn : n < UInt64.size) : (ofNat n).natural? = some n := by
  have hword : 0 ≤ (n : Int) ∧ (n : Int) < UInt64.size :=
    ⟨Int.natCast_nonneg n, Int.ofNat_lt.mpr hn⟩
  rw [ofNat, natural?, Number.natural?, if_pos hword, Int.toNat_natCast]

theorem Json.natural?_ofNat_eq_none {n : Nat} (hn : ¬n < UInt64.size) :
    (ofNat n).natural? = none := by
  rw [ofNat, natural?, Number.natural?, if_neg fun hword => hn (Int.ofNat_lt.mp hword.2)]

theorem Json.eq_ofNat_of_natural? {value : Json} {n : Nat} (hvalue : value.natural? = some n) :
    value = ofNat n := by
  match value with
  | .number (.integer i) =>
    obtain ⟨⟨hpositive, _⟩, hn⟩ := Option.ite_none_right_eq_some.mp hvalue
    rw [Option.some.injEq] at hn
    rw [ofNat, ← hn, Int.toNat_of_nonneg hpositive]

theorem Json.natural?_lt {value : Json} {n : Nat} (hvalue : value.natural? = some n) :
    n < UInt64.size := by
  obtain rfl := Json.eq_ofNat_of_natural? hvalue
  by_contra hword
  rw [Json.natural?_ofNat_eq_none hword] at hvalue
  cases hvalue

/-- Is a value neither a list nor a mapping? -/
def Json.isScalar : Json → Bool
  | .array _ | .object _ => false
  | _ => true

/-- Where a scalar gives way, nothing of it is left. -/
theorem Json.merge_of_isScalar (left : Json) {right : Json} (hright : right.isScalar = true) :
    left.merge right = left := by
  cases left <;> cases right <;> simp_all [Json.merge, Json.isScalar]

namespace Document

variable {left right : Document} {key : String}

/-! ## The values under a key

A document is a list of entries, of which the first one under a key counts. In documents that are
read no key comes twice, but lemmas about lists do not need to know this. -/

/-- The values that a document has under a key, of which the first one counts. There is at most one
in a document that was read, but lists of fields can be written down with more. -/
def valuesAt (d : Document) (key : String) : List Json :=
  (d.filter fun field => field.1 = key).map Prod.snd

theorem valuesAt_cons (field : String × Json) (d : Document) (key : String) :
    valuesAt (field :: d) key =
      if field.1 = key then field.2 :: valuesAt d key else valuesAt d key := by
  unfold valuesAt
  rw [List.filter_cons]
  by_cases hfield : field.1 = key
  · simp [hfield]
  · simp [hfield]

theorem head?_valuesAt (d : Document) (key : String) : (d.valuesAt key).head? = d.get? key := by
  induction d with
  | nil => rfl
  | cons field d ih =>
    rw [valuesAt_cons, get?_cons]
    split
    · rfl
    · exact ih

theorem mem_of_get?_eq_some {d : Document} {value : Json} (hvalue : d.get? key = some value) :
    (key, value) ∈ d := by
  rw [← head?_valuesAt] at hvalue
  have hmem : value ∈ d.valuesAt key := List.mem_of_head? hvalue
  simpa [valuesAt] using hmem

theorem valuesAt_eq_nil_iff {d : Document} : d.valuesAt key = [] ↔ d.get? key = none := by
  rw [← head?_valuesAt, List.head?_eq_none_iff]

theorem get?_eq_none_iff {d : Document} : d.get? key = none ↔ key ∉ d.keys := by
  induction d with
  | nil => simp [keys]
  | cons field d ih =>
    rw [get?_cons, keys, List.map_cons, List.mem_cons, not_or, ← keys, ← ih]
    by_cases hfield : field.1 = key
    · simp [hfield]
    · simp [hfield, Ne.symm hfield]

/-- Where no key occurs twice there is one value at most. -/
theorem valuesAt_of_distinct {d : Document} (hdistinct : d.Distinct) (key : String) :
    d.valuesAt key = (d.get? key).toList := by
  induction d with
  | nil => rfl
  | cons field d ih =>
    obtain ⟨hfield, hrest⟩ := List.nodup_cons.mp hdistinct
    rw [valuesAt_cons, get?_cons]
    split
    · next heq =>
      rw [← heq, valuesAt_eq_nil_iff.mpr (get?_eq_none_iff.mpr hfield)]
      rfl
    · exact ih hrest

theorem contains_iff {d : Document} : d.contains key = true ↔ ∃ value, d.get? key = some value := by
  rw [contains, Option.isSome_iff_exists]

theorem contains_of_string? {d : Document} {value : String}
    (hvalue : d.string? key = some value) : d.contains key = true := by
  rw [string?, Option.bind_eq_some_iff] at hvalue
  obtain ⟨json, hjson, _⟩ := hvalue
  exact contains_iff.mpr ⟨json, hjson⟩

theorem contains_of_natural? {d : Document} {value : Nat}
    (hvalue : d.natural? key = some value) : d.contains key = true := by
  rw [natural?, Option.bind_eq_some_iff] at hvalue
  obtain ⟨json, hjson, _⟩ := hvalue
  exact contains_iff.mpr ⟨json, hjson⟩

theorem contains_eq_false_iff {d : Document} : d.contains key = false ↔ d.get? key = none := by
  rw [contains, Option.isSome_eq_false_iff, Option.isNone_iff_eq_none]

theorem contains_eq_false_of_not_mem {d : Document} (habsent : key ∉ d.keys) :
    d.contains key = false :=
  contains_eq_false_iff.mpr (get?_eq_none_iff.mpr habsent)

theorem get?_setIfAbsent (d : Document) (key : String) (value : Json) :
    (d.setIfAbsent key value).get? key = (d.get? key).or (some value) := by
  unfold Document.setIfAbsent
  split
  · next hpresent =>
    obtain ⟨present, hget⟩ := contains_iff.mp hpresent
    rw [hget, Option.some_or]
  · next habsent =>
    rw [Bool.not_eq_true, contains_eq_false_iff] at habsent
    rw [habsent, Option.none_or, get?_set, if_pos rfl]

theorem valuesAt_set_of_ne {other : String} (hother : other ≠ key) (d : Document) (value : Json) :
    (d.set other value).valuesAt key = d.valuesAt key := by
  induction d with
  | nil => rw [set, valuesAt_cons, if_neg hother]
  | cons field d ih =>
    rw [set]
    split
    · next hfield => rw [valuesAt_cons, valuesAt_cons, if_neg hother, hfield, if_neg hother]
    · rw [valuesAt_cons, valuesAt_cons, ih]

/-! ## Merging two documents

A merge goes key by key: what the document with priority lacks is taken over, lists are joined and
mappings are merged again, and everything else is kept. -/

/-- **The value under a key after a merge.** All values that the second document has under the key
are combined in their order, so the statement needs no document without repeated keys. -/
theorem get?_mergeWith (rules : MergeRules) (left right : Document) (key : String) :
    (mergeWith rules left right).get? key =
      (right.valuesAt key).foldl (fun present value => some (combine rules key present value))
        (left.get? key) := by
  induction right generalizing left with
  | nil => rfl
  | cons field right ih =>
    show (mergeWith rules (left.set field.1 _) right).get? key = _
    rw [ih, valuesAt_cons, get?_set]
    by_cases hfield : field.1 = key
    · subst hfield
      rw [if_pos rfl, if_pos rfl, List.foldl_cons]
    · rw [if_neg hfield, if_neg hfield]

/-- A document without repeated keys gives way to the value that is there. -/
theorem get?_mergeWith_of_distinct (rules : MergeRules) (left : Document)
    (hdistinct : right.Distinct) (key : String) :
    (mergeWith rules left right).get? key =
      match right.get? key with
      | none => left.get? key
      | some value => some (combine rules key (left.get? key) value) := by
  rw [get?_mergeWith, valuesAt_of_distinct hdistinct]
  cases right.get? key with
  | none => rfl
  | some value => rfl

theorem contains_mergeWith (rules : MergeRules) (left right : Document) (key : String) :
    (mergeWith rules left right).contains key = (left.contains key || right.contains key) := by
  have hfold : ∀ (values : List Json) (present : Option Json),
      (values.foldl (fun present value => some (combine rules key present value)) present).isSome =
        (present.isSome || !values.isEmpty) := by
    intro values
    induction values with
    | nil => simp
    | cons value values ih =>
      intro present
      rw [List.foldl_cons, ih]
      simp
  rw [contains, get?_mergeWith, hfold, contains, contains, ← head?_valuesAt right]
  cases right.valuesAt key <;> rfl

section

variable {α : Type} {view : Json → Option α} {rules : MergeRules}

/-- What no merge changes in a value is seen, under a key that has no rule, in the first document
that has the key. -/
theorem bind_get?_mergeWith (hview : ∀ left right : Json, view (left.merge right) = view left)
    (hrule : rules key = none) (left right : Document) :
    ((mergeWith rules left right).get? key).bind view =
      if left.contains key then (left.get? key).bind view else (right.get? key).bind view := by
  -- once there is a value, merging others into it keeps what is seen of it
  have hfold : ∀ (values : List Json) (present : Json),
      (values.foldl (fun present value => some (combine rules key present value))
        (some present)).bind view = view present := by
    intro values
    induction values with
    | nil => simp
    | cons value values ih =>
      intro present
      rw [List.foldl_cons, combine, ih, hrule, hview]
  rw [get?_mergeWith, contains, ← head?_valuesAt right]
  cases hleft : left.get? key with
  | some present => rw [hfold, Option.isSome_some, if_pos rfl, Option.bind_some]
  | none =>
    rw [Option.isSome_none, if_neg Bool.false_ne_true]
    cases right.valuesAt key with
    | nil => rfl
    | cons value values => exact hfold values value

end

theorem distinct_mergeWith (rules : MergeRules) (hdistinct : left.Distinct) (right : Document) :
    (mergeWith rules left right).Distinct := by
  induction right generalizing left with
  | nil => exact hdistinct
  | cons field right ih => exact ih (distinct_set hdistinct _ _)

/-! ## Merging several documents

Several documents are merged from the first one on, so the first one has priority. A value that is
neither list nor mapping comes from the first document that has the key. -/

theorem distinct_nil : Distinct [] := List.nodup_nil

theorem mergeAllWith_concat (rules : MergeRules) (docs : List Document) (last : Document) :
    mergeAllWith rules (docs ++ [last]) = mergeWith rules (mergeAllWith rules docs) last := by
  rw [mergeAllWith, List.foldl_append]
  rfl

theorem mergeAll_concat (docs : List Document) (last : Document) :
    mergeAll (docs ++ [last]) = mergeWith .plain (mergeAll docs) last :=
  mergeAllWith_concat .plain docs last

theorem distinct_mergeAllWith (rules : MergeRules) (docs : List Document) :
    (mergeAllWith rules docs).Distinct := by
  suffices ∀ d : Document, d.Distinct → (docs.foldl (mergeWith rules) d).Distinct from
    this [] distinct_nil
  induction docs with
  | nil => exact fun d hd => hd
  | cons doc docs ih => exact fun d hd => ih _ (distinct_mergeWith rules hd doc)

theorem contains_mergeAllWith (rules : MergeRules) (docs : List Document) (key : String) :
    (mergeAllWith rules docs).contains key = docs.any fun d => d.contains key := by
  induction docs using List.reverseRecOn with
  | nil => rfl
  | append_singleton docs last ih =>
    rw [mergeAllWith_concat, contains_mergeWith, ih, List.any_append]
    simp

theorem contains_mergeAll (docs : List Document) (key : String) :
    (mergeAll docs).contains key = docs.any fun d => d.contains key :=
  contains_mergeAllWith .plain docs key

/-- What no merge changes in a value is seen in the first of the merged documents that has the
key. -/
theorem bind_get?_mergeAllWith {α : Type} {view : Json → Option α} {rules : MergeRules}
    (hview : ∀ left right : Json, view (left.merge right) = view left)
    (hrule : rules key = none) (docs : List Document) :
    ((mergeAllWith rules docs).get? key).bind view =
      (docs.find? fun d => d.contains key).bind fun d => (d.get? key).bind view := by
  -- the last document has the least priority, so it counts where no other one has the key
  induction docs using List.reverseRecOn with
  | nil => rfl
  | append_singleton docs last ih =>
    rw [mergeAllWith_concat, bind_get?_mergeWith hview hrule, contains_mergeAllWith, ih,
      List.find?_append]
    cases hfind : docs.find? (fun d => d.contains key) with
    | some d =>
      rw [if_pos (List.any_eq_true.mpr ⟨d, List.mem_of_find?_eq_some hfind, by
        simpa using List.find?_some hfind⟩)]
      rfl
    | none =>
      have hnone : docs.any (fun d => d.contains key) = false := by
        rw [List.any_eq_false]
        exact List.find?_eq_none.mp hfind
      rw [hnone, if_neg Bool.false_ne_true, Option.none_or]
      cases hlast : last.contains key with
      | true => simp [hlast]
      | false =>
        rw [contains_eq_false_iff] at hlast
        simp [contains, hlast]

/-- The string under a key after a merge is the one of the first document that has the key. -/
theorem string?_mergeAll (docs : List Document) (key : String) :
    (mergeAll docs).string? key =
      (docs.find? fun d => d.contains key).bind fun d => d.string? key :=
  bind_get?_mergeAllWith Json.string?_merge rfl docs

/-- The natural number under a key after a merge is the one of the first document that has the
key. -/
theorem natural?_mergeAllWith {rules : MergeRules} (hrule : rules key = none)
    (docs : List Document) :
    (mergeAllWith rules docs).natural? key =
      (docs.find? fun d => d.contains key).bind fun d => d.natural? key :=
  bind_get?_mergeAllWith Json.natural?_merge hrule docs

theorem string?_mergeAll_of_eq_some {d : Document} {value : String}
    (hvalue : d.string? key = some value) (layers : List Document) :
    (mergeAll (d :: layers)).string? key = some value := by
  rw [string?_mergeAll, List.find?_cons, contains_of_string? hvalue, Option.bind_some, hvalue]

theorem natural?_mergeAll_of_eq_some {d : Document} {value : Nat}
    (hvalue : d.natural? key = some value) (layers : List Document) :
    (mergeAll (d :: layers)).natural? key = some value := by
  rw [mergeAll, natural?_mergeAllWith rfl, List.find?_cons, contains_of_natural? hvalue,
    Option.bind_some, hvalue]

/-- Documents that have the same values under a key are merged to the same value there. -/
theorem get?_mergeAllWith_congr (rules : MergeRules) {docs docs' : List Document}
    (h : List.Forall₂ (fun d d' => d.valuesAt key = d'.valuesAt key) docs docs') :
    (mergeAllWith rules docs).get? key = (mergeAllWith rules docs').get? key := by
  suffices ∀ d d' : Document, d.get? key = d'.get? key →
      (docs.foldl (mergeWith rules) d).get? key = (docs'.foldl (mergeWith rules) d').get? key from
    this [] [] rfl
  induction h with
  | nil => exact fun d d' hget => hget
  | cons hsame _ ih =>
    intro d d' hget
    refine ih _ _ ?_
    rw [get?_mergeWith, get?_mergeWith, hsame, hget]

/-! ## Layers below a document

Defaults are layers: documents that are merged below a record, one after the other. How often and in
which order this is done makes no difference to a record as long as the layers are known to be of
some kind, which is what the relation between a document and its layered form records. -/

theorem set_of_not_mem {d : Document} (habsent : key ∉ d.keys) (value : Json) :
    d.set key value = d ++ [(key, value)] := by
  induction d with
  | nil => rfl
  | cons field d ih =>
    rw [keys, List.map_cons, List.mem_cons, not_or] at habsent
    rw [set, if_neg (Ne.symm habsent.1), ih habsent.2, List.cons_append]

/-- A document without repeated keys is what it is merged to. -/
theorem mergeWith_nil (rules : MergeRules) {d : Document} (hdistinct : d.Distinct) :
    mergeWith rules [] d = d := by
  -- the fields merged so far are at the front, unchanged
  suffices ∀ before : Document, (before ++ d).Distinct → mergeWith rules before d = before ++ d from
    this [] hdistinct
  clear hdistinct
  induction d with
  | nil => exact fun before _ => (List.append_nil before).symm
  | cons field d ih =>
    intro before hnodup
    have habsent : field.1 ∉ before.keys := by
      unfold Distinct at hnodup
      rw [keys, List.map_append, List.nodup_append] at hnodup
      exact fun hmem => hnodup.2.2 _ hmem _ List.mem_cons_self rfl
    have hset : ∀ value, before.set field.1 value = before ++ [(field.1, value)] :=
      set_of_not_mem habsent
    have hget : before.get? field.1 = none := get?_eq_none_iff.mpr habsent
    show mergeWith rules (before.set field.1 (combine rules field.1 (before.get? field.1) _)) d = _
    rw [hget, combine, hset, ih]
    · rw [List.append_assoc, List.singleton_append]
    · rw [List.append_assoc, List.singleton_append]
      exact hnodup

theorem mergeAll_pair {d : Document} (hdistinct : d.Distinct) (layer : Document) :
    mergeAll [d, layer] = mergeWith .plain d layer := by
  show mergeWith .plain (mergeWith .plain [] d) layer = _
  rw [mergeWith_nil .plain hdistinct]

/-- A key that a document lacks has the string of a layer below it that has the key. -/
theorem exists_layer_of_contains {d layer : Document} {layers : List Document}
    (hlacks : d.contains key = false) (hlayer : layer ∈ layers)
    (hkey : layer.contains key = true) :
    ∃ found ∈ layers, found.contains key = true ∧
      (mergeAll (d :: layers)).string? key = found.string? key := by
  have hsome : (layers.find? fun layer => layer.contains key).isSome = true :=
    List.find?_isSome.mpr ⟨layer, hlayer, hkey⟩
  obtain ⟨found, hfound⟩ := Option.isSome_iff_exists.mp hsome
  have hcontains : found.contains key = true := by
    simpa using List.find?_some hfound
  refine ⟨found, List.mem_of_find?_eq_some hfound, hcontains, ?_⟩
  rw [string?_mergeAll, List.find?_cons, hlacks, hfound, Option.bind_some]

/-- Layers can be put below a merge or below what was merged first. -/
theorem mergeAll_mergeAll (d : Document) (layers layers' : List Document) :
    mergeAll (mergeAll (d :: layers) :: layers') = mergeAll (d :: (layers ++ layers')) := by
  -- the inner merge has no key twice, so merging goes on where it stopped
  have hinner := mergeWith_nil .plain (distinct_mergeAllWith .plain (d :: layers))
  show layers'.foldl (mergeWith .plain)
    (mergeWith .plain [] (mergeAllWith .plain (d :: layers))) = _
  rw [hinner, mergeAllWith, ← List.foldl_append]
  rfl

/-- Some layers below a document, each of them of a kind. Passes that complete a record do nothing
else, so what holds of all layers of a kind holds of what completion adds. -/
def Layered (allowed : Document → Prop) (before after : Document) : Prop :=
  ∃ layers, (∀ layer ∈ layers, allowed layer) ∧ after = mergeAll (before :: layers)

namespace Layered

variable {allowed allowed' : Document → Prop} {before middle after : Document}

theorem refl (hdistinct : before.Distinct) : Layered allowed before before :=
  ⟨[], by simp, (mergeWith_nil _ hdistinct).symm⟩

theorem trans (h : Layered allowed before middle) (h' : Layered allowed middle after) :
    Layered allowed before after := by
  obtain ⟨layers, hlayers, rfl⟩ := h
  obtain ⟨layers', hlayers', rfl⟩ := h'
  refine ⟨layers ++ layers', ?_, mergeAll_mergeAll before layers layers'⟩
  intro layer hlayer
  rcases List.mem_append.mp hlayer with hlayer | hlayer
  · exact hlayers layer hlayer
  · exact hlayers' layer hlayer

theorem mono (himp : ∀ layer, allowed layer → allowed' layer) (h : Layered allowed before after) :
    Layered allowed' before after := by
  obtain ⟨layers, hlayers, rfl⟩ := h
  exact ⟨layers, fun layer hlayer => himp layer (hlayers layer hlayer), rfl⟩

theorem distinct (h : Layered allowed before after) : after.Distinct := by
  obtain ⟨layers, _, rfl⟩ := h
  exact distinct_mergeAllWith _ _

/-- The string under a key that a document has is kept. -/
theorem string?_of_contains (h : Layered allowed before after)
    (hkey : before.contains key = true) : after.string? key = before.string? key := by
  obtain ⟨layers, _, rfl⟩ := h
  rw [string?_mergeAll, List.find?_cons, hkey]
  rfl

theorem string?_of_eq_some (h : Layered allowed before after) {value : String}
    (hvalue : before.string? key = some value) : after.string? key = some value := by
  rw [← hvalue]
  exact h.string?_of_contains (contains_of_string? hvalue)

/-- A string under a key that the document lacks comes from a layer. -/
theorem exists_layer_of_string? (h : Layered allowed before after)
    (hlacks : before.contains key = false) {value : String}
    (hvalue : after.string? key = some value) :
    ∃ layer, allowed layer ∧ layer.string? key = some value := by
  obtain ⟨layers, hallowed, rfl⟩ := h
  rw [string?_mergeAll, List.find?_cons, hlacks, Option.bind_eq_some_iff] at hvalue
  obtain ⟨layer, hfound, hlayer⟩ := hvalue
  exact ⟨layer, hallowed layer (List.mem_of_find?_eq_some hfound), hlayer⟩

/-- A document keeps its own string under a key or takes that of a layer. -/
theorem string?_eq_or (h : Layered allowed before after) :
    after.string? key = before.string? key ∨
      before.string? key = none ∧ ∃ layer, allowed layer ∧ ∃ value,
        layer.string? key = some value ∧ after.string? key = some value := by
  cases hkey : before.contains key with
  | true => exact Or.inl (h.string?_of_contains hkey)
  | false =>
    have hnone : before.string? key = none := by
      rw [string?, contains_eq_false_iff.mp hkey, Option.bind_none]
    rw [hnone]
    cases hafter : after.string? key with
    | none => exact Or.inl rfl
    | some value =>
      obtain ⟨layer, hlayer, hvalue⟩ := h.exists_layer_of_string? hkey hafter
      exact Or.inr ⟨rfl, layer, hlayer, value, hvalue, rfl⟩

/-- A key that no layer has comes from the document itself. -/
theorem contains_eq (h : Layered allowed before after)
    (hkey : ∀ layer, allowed layer → layer.contains key = false) :
    after.contains key = before.contains key := by
  obtain ⟨layers, hlayers, rfl⟩ := h
  have hnone : layers.any (fun layer => layer.contains key) = false := by
    rw [List.any_eq_false]
    intro layer hlayer
    rw [hkey layer (hlayers layer hlayer)]
    exact Bool.false_ne_true
  rw [contains_mergeAll, List.any_cons, hnone, Bool.or_false]

/-- So does its value. -/
theorem get?_eq (h : Layered allowed before after) (hdistinct : before.Distinct)
    (hkey : ∀ layer, allowed layer → layer.contains key = false) :
    after.get? key = before.get? key := by
  obtain ⟨layers, hlayers, rfl⟩ := h
  induction layers using List.reverseRecOn with
  | nil =>
    show (mergeWith .plain [] before).get? key = before.get? key
    rw [mergeWith_nil .plain hdistinct]
  | append_singleton layers last ih =>
    have hlast := hkey last (hlayers last (List.mem_append_right _ List.mem_cons_self))
    rw [← List.cons_append, mergeAll_concat, get?_mergeWith,
      valuesAt_eq_nil_iff.mpr (contains_eq_false_iff.mp hlast), List.foldl_nil]
    exact ih fun layer hlayer => hlayers layer (List.mem_append_left _ hlayer)

end Layered

/-- A layer without repeated keys gives its value to a key that the document lacks. -/
theorem get?_mergeAll_pair_of_absent {d layer : Document} (hdistinct : layer.Distinct)
    (habsent : d.contains key = false) : (mergeAll [d, layer]).get? key = layer.get? key := by
  show (mergeWith .plain (mergeWith .plain [] d) layer).get? key = _
  have hnone : (mergeWith .plain [] d).get? key = none := by
    rw [← contains_eq_false_iff, contains_mergeWith, habsent]
    rfl
  rw [get?_mergeWith_of_distinct _ _ hdistinct, hnone]
  cases layer.get? key <;> rfl

/-! ## Documents that differ in some keys only

Passes that write single keys are described by the keys that they write. Whatever is read under
other keys is the same before and after, so a chain of passes is one step with all of their keys. -/

/-- Outside some keys two documents hold the same values. Neither may have a key there that the
other one lacks. -/
def AgreesOff (keys : List String) (before after : Document) : Prop :=
  ∀ key ∉ keys, after.get? key = before.get? key

namespace AgreesOff

variable {keys : List String} {before middle after : Document}

theorem refl (keys : List String) (d : Document) : AgreesOff keys d d := fun _ _ => rfl

theorem trans (h : AgreesOff keys before middle) (h' : AgreesOff keys middle after) :
    AgreesOff keys before after := by
  intro key hkey
  rw [h' key hkey, h key hkey]

theorem string? (h : AgreesOff keys before after) {key : String} (hkey : key ∉ keys) :
    after.string? key = before.string? key := by
  rw [Document.string?, Document.string?, h key hkey]

/-- A document agrees with another one where its entries are values of the other one and no key
that it lacks has a value there. -/
theorem of_entries (hentries : ∀ entry ∈ after, entry.1 ∉ keys → before.get? entry.1 = some entry.2)
    (habsent : ∀ key ∉ keys, key ∉ after.keys → before.get? key = none) :
    AgreesOff keys before after := by
  intro key hkey
  cases hget : after.get? key with
  | none => exact (habsent key hkey (get?_eq_none_iff.mp hget)).symm
  | some value => exact (hentries (key, value) (mem_of_get?_eq_some hget) hkey).symm

theorem set (hkey : key ∈ keys) (d : Document) (value : Json) :
    AgreesOff keys d (d.set key value) := by
  intro other hother
  rw [get?_set, if_neg]
  rintro rfl
  exact hother hkey

theorem setIfAbsent (hkey : key ∈ keys) (d : Document) (value : Json) :
    AgreesOff keys d (d.setIfAbsent key value) := by
  unfold Document.setIfAbsent
  split
  · exact refl keys d
  · exact set hkey d value

end AgreesOff

/-! ## Documents that keep what they have

This is weaker than to agree, as keys may be added. It is what remains of a record when templates
have been merged below it, and it holds where a template has no list or mapping to be joined. -/

/-- A document keeps its values under all but some keys; it may gain others. This is what is
promised for written attributes, which defaults must not override. -/
def Keeps (keys : List String) (before after : Document) : Prop :=
  ∀ key ∉ keys, ∀ value, before.get? key = some value → after.get? key = some value

theorem AgreesOff.keeps {keys : List String} {before after : Document}
    (h : AgreesOff keys before after) : Keeps keys before after := by
  intro key hkey value hvalue
  rw [h key hkey, hvalue]

/-- A document all of whose values are scalars, some keys apart. -/
def ScalarOff (keys : List String) (d : Document) : Prop :=
  ∀ field ∈ d, field.1 ∉ keys → field.2.isScalar = true

instance (keys : List String) (d : Document) : Decidable (d.ScalarOff keys) :=
  inferInstanceAs (Decidable (∀ field ∈ d, field.1 ∉ keys → field.2.isScalar = true))

theorem ScalarOff.isScalar {keys : List String} {d : Document} (h : d.ScalarOff keys)
    (hkey : key ∉ keys) {value : Json} (hvalue : value ∈ d.valuesAt key) :
    value.isScalar = true := by
  obtain ⟨field, hfield, rfl⟩ := List.mem_map.mp hvalue
  rw [List.mem_filter, decide_eq_true_eq] at hfield
  exact h field hfield.1 (hfield.2 ▸ hkey)

theorem ScalarOff.mono {keys keys' : List String} {d : Document} (h : d.ScalarOff keys)
    (hsub : keys ⊆ keys') : d.ScalarOff keys' :=
  fun field hfield hkey => h field hfield fun hmem => hkey (hsub hmem)

namespace Keeps

variable {keys keys' : List String} {before middle after : Document}

theorem refl (keys : List String) (d : Document) : Keeps keys d d := fun _ _ _ hvalue => hvalue

theorem trans (h : Keeps keys before middle) (h' : Keeps keys middle after) :
    Keeps keys before after :=
  fun key hkey value hvalue => h' key hkey value (h key hkey value hvalue)

theorem mono (h : Keeps keys before after) (hsub : keys ⊆ keys') : Keeps keys' before after :=
  fun key hkey => h key fun hmem => hkey (hsub hmem)

/-- What is read from a value that is kept is kept. -/
theorem bind {α : Type} (h : Keeps keys before after) {key : String} (hkey : key ∉ keys)
    {view : Json → Option α} {a : α} (hread : (before.get? key).bind view = some a) :
    (after.get? key).bind view = some a := by
  obtain ⟨value, hvalue, hview⟩ := Option.bind_eq_some_iff.mp hread
  rw [h key hkey value hvalue, Option.bind_some, hview]

theorem set (keys : List String) {d : Document} {key : String} {value : Json}
    (hpresent : ∀ present, d.get? key = some present → value = present) :
    Keeps keys d (d.set key value) := by
  intro other _ present hother
  rw [get?_set]
  by_cases hkey : key = other
  · subst hkey
    rw [if_pos rfl, hpresent present hother]
  · rw [if_neg hkey, hother]

theorem set_of_absent (keys : List String) {d : Document} (habsent : d.contains key = false)
    (value : Json) : Keeps keys d (d.set key value) := by
  rw [contains_eq_false_iff] at habsent
  refine set keys fun present hpresent => ?_
  rw [habsent] at hpresent
  cases hpresent

theorem setIfAbsent (keys : List String) (d : Document) (key : String) (value : Json) :
    Keeps keys d (d.setIfAbsent key value) := by
  unfold Document.setIfAbsent
  split
  · exact refl keys d
  · next habsent => exact set_of_absent keys (Bool.not_eq_true _ ▸ habsent) value

/-- A merge leaves the document that has priority as it is, where no list or mapping meets it. -/
theorem mergeWith (hright : right.ScalarOff keys) :
    Keeps keys left (Document.mergeWith .plain left right) := by
  intro key hkey value hvalue
  rw [get?_mergeWith, hvalue]
  have hscalar : ∀ other ∈ right.valuesAt key, other.isScalar = true :=
    fun _ hother => hright.isScalar hkey hother
  generalize right.valuesAt key = others at hscalar
  induction others with
  | nil => rfl
  | cons other others ih =>
    rw [List.foldl_cons, combine, MergeRules.plain,
      Json.merge_of_isScalar value (hscalar other List.mem_cons_self)]
    exact ih fun other hother => hscalar other (List.mem_cons_of_mem _ hother)

end Keeps

/-- Layers without lists and mappings leave a document as it is. -/
theorem Layered.keeps {allowed : Document → Prop} {keys : List String} {before after : Document}
    (h : Layered allowed before after) (hdistinct : before.Distinct)
    (hlayers : ∀ layer, allowed layer → layer.ScalarOff keys) : Keeps keys before after := by
  obtain ⟨layers, hallowed, rfl⟩ := h
  induction layers using List.reverseRecOn with
  | nil =>
    rw [show mergeAll [before] = before from mergeWith_nil .plain hdistinct]
    exact .refl keys before
  | append_singleton layers last ih =>
    rw [← List.cons_append, mergeAll_concat]
    have hlast := hlayers last (hallowed last (List.mem_append_right _ List.mem_cons_self))
    exact (ih fun layer hlayer => hallowed layer (List.mem_append_left _ hlayer)).trans
      (.mergeWith hlast)

theorem set_of_get?_eq_some {d : Document} {value : Json} (hvalue : d.get? key = some value) :
    d.set key value = d := by
  induction d with
  | nil => cases hvalue
  | cons field d ih =>
    rw [get?_cons] at hvalue
    rw [set]
    split at hvalue
    · next hfield =>
      rw [Option.some.injEq] at hvalue
      rw [if_pos hfield, ← hfield, ← hvalue]
    · next hfield => rw [if_neg hfield, ih hvalue]

/-- Scalars that are merged into a mapping are appended to it where it lacks their keys. -/
theorem exists_mergeInto_eq_append (left : Document) (hright : right.ScalarOff []) :
    ∃ gained : Document, mergeInto left right = left ++ gained ∧
      ∀ key ∈ gained.keys, key ∉ left.keys := by
  induction right generalizing left with
  | nil => exact ⟨[], by rw [mergeInto, List.append_nil], by simp [keys]⟩
  | cons field right ih =>
    obtain ⟨key, value⟩ := field
    have hright' : ScalarOff [] right :=
      fun other hother => hright other (List.mem_cons_of_mem _ hother)
    rw [mergeInto]
    -- a scalar gives way to what is there, and is put at the end where nothing is
    cases hpresent : left.get? key with
    | some present =>
      have hscalar : value.isScalar = true := hright _ List.mem_cons_self (by simp)
      dsimp only
      rw [Json.merge_of_isScalar present hscalar, set_of_get?_eq_some hpresent]
      exact ih left hright'
    | none =>
      have habsent : key ∉ left.keys := get?_eq_none_iff.mp hpresent
      dsimp only
      obtain ⟨gained, hgained, hnew⟩ := ih (left.set key value) hright'
      rw [set_of_not_mem habsent] at hgained hnew
      refine ⟨(key, value) :: gained, ?_, ?_⟩
      · rw [set_of_not_mem habsent, hgained, List.append_assoc, List.singleton_append]
      · intro other hother hmem
        rcases List.mem_cons.mp hother with rfl | hother
        · exact habsent hmem
        · refine hnew other hother ?_
          rw [keys, List.map_append]
          exact List.mem_append_left _ hmem

end Document

end MemoryHierarchy
