import MemoryHierarchy.Proofs.Document.MergeLaw

/-!
# When it does not matter which documents are merged first

The value of the first document decides what is merged into it. Where it is a list, a list of the
third document is joined to it, whatever stands between them in the second. But when the second and
the third document are merged first, a value of another kind in the second one keeps the list of the
third away. `Document.clashes` finds such a value, at every depth. Without one a merge is
associative, in the order of its keys too (`mergeAll_assoc`).
-/

namespace MemoryHierarchy

mutual

/-- Does the second value keep apart two lists, or two mappings, of which it is neither? Merged from
the left such a value is dropped, and the others meet; merged from the right it wins over the third
one. -/
def Json.clashes : Json → Json → Json → Bool
  | .array _, .array _, .array _ => false
  | .array _, _, .array _ => true
  | .object a, .object b, .object c => Document.clashes a b c
  | .object _, _, .object _ => true
  | _, _, _ => false

/-- Does a value of the second document do so, under a key that all three documents have? The keys
of nested mappings count too. -/
def Document.clashes : List (String × Json) → Document → Document → Bool
  | [], _, _ => false
  | (key, x) :: rest, b, c =>
    (match b.get? key, c.get? key with
      | some y, some z => x.clashes y z
      | _, _ => false)
    || Document.clashes rest b c

end

theorem filter_eraseDups {α : Type} [BEq α] [LawfulBEq α] (p : α → Bool) (items : List α) :
    items.eraseDups.filter p = (items.filter p).eraseDups := by
  induction items using List.reverseRecOn with
  | nil => rfl
  | append_singleton items last ih =>
    rw [List.filter_append, List.eraseDups_append, List.eraseDups_append, List.filter_append, ih]
    by_cases hp : p last = true <;> by_cases hmem : last ∈ items <;>
      simp [List.removeAll, hp, hmem]

/-- Repetitions in what comes last may be dropped before. -/
theorem eraseDups_append_eraseDups {α : Type} [BEq α] [LawfulBEq α] (items others : List α) :
    (items ++ others.eraseDups).eraseDups = (items ++ others).eraseDups := by
  rw [List.eraseDups_append, List.eraseDups_append, List.removeAll, List.removeAll,
    filter_eraseDups, eraseDups_of_nodup (nodup_eraseDups _)]

/-- Merging values is associative where it is so for the mappings in them. -/
theorem Json.merge_assoc {x y z : Json} (hclash : x.clashes y z = false)
    (hnested : ∀ a b c, x = .object a → y = .object b → z = .object c →
      Document.mergeInto a (Document.mergeInto b c) =
        Document.mergeInto (Document.mergeInto a b) c) :
    x.merge (y.merge z) = (x.merge y).merge z := by
  -- something else between two lists, or two mappings, shuts out the third value on one side only:
  -- that is a clash, and the only one
  cases x with
  | array xs =>
    cases y with
    | array ys => cases z <;> simp [merge]
    | _ => cases z <;> simp_all [merge, clashes]
  | object a =>
    cases y with
    | object b =>
      cases z with
      | object c => simp [merge, hnested a b c rfl rfl rfl]
      | _ => simp [merge]
    | _ => cases z <;> simp_all [merge, clashes]
  | _ => simp [merge]

namespace Document

theorem clashes_of_get? {a b c : Document} {key : String} {x y z : Json}
    (hclash : clashes a b c = false) (hx : a.get? key = some x) (hy : b.get? key = some y)
    (hz : c.get? key = some z) : x.clashes y z = false := by
  induction a with
  | nil => cases hx
  | cons field a ih =>
    obtain ⟨key', x'⟩ := field
    rw [clashes, Bool.or_eq_false_iff] at hclash
    rw [get?_cons] at hx
    split at hx
    · next hkey =>
      obtain rfl : key' = key := hkey
      rw [hy, hz] at hclash
      rw [← Option.some.inj hx]
      exact hclash.1
    · exact ih hclash.2 hx

theorem mergeWith_assoc {a b c : Document} (ha : a.wellKeyed = true) (hb : b.wellKeyed = true)
    (hc : c.wellKeyed = true) (hclash : clashes a b c = false) :
    mergeWith .plain a (mergeWith .plain b c) = mergeWith .plain (mergeWith .plain a b) c := by
  have ha' := distinct_of_wellKeyed ha
  have hb' := distinct_of_wellKeyed hb
  have hc' := distinct_of_wellKeyed hc
  have hbc := distinct_mergeWith .plain hb' c
  -- the keys are the same in the same order, and under each key so is the value
  refine eq_of_get?_eq (distinct_mergeWith .plain ha' _) ?_ fun key => ?_
  · rw [keys_mergeWith .plain ha', keys_mergeWith .plain hb',
      keys_mergeWith .plain (distinct_mergeWith .plain ha' b), keys_mergeWith .plain ha',
      eraseDups_append_eraseDups, eraseDups_eraseDups_append, List.append_assoc]
  · rw [get?_mergeWith_of_distinct .plain a hbc, get?_mergeWith_of_distinct .plain b hc',
      get?_mergeWith_of_distinct .plain (mergeWith .plain a b) hc',
      get?_mergeWith_of_distinct .plain a hb']
    cases hx : a.get? key with
    | none => cases b.get? key <;> cases c.get? key <;> rfl
    | some x =>
      cases hy : b.get? key with
      | none => cases c.get? key <;> rfl
      | some y =>
        cases hz : c.get? key with
        | none => rfl
        | some z =>
          show some (x.merge (y.merge z)) = some ((x.merge y).merge z)
          have hvalues := clashes_of_get? hclash hx hy hz
          rw [Json.merge_assoc hvalues]
          rintro a' b' c' rfl rfl rfl
          -- three mappings under one key are merged in turn, and they are smaller
          have hsmaller := sizeOf_lt_of_get? hx
          have hnested := mergeWith_assoc (wellKeyed_of_get? ha hx) (wellKeyed_of_get? hb hy)
            (wellKeyed_of_get? hc hz) (by simpa only [Json.clashes] using hvalues)
          simpa only [mergeWith_plain] using hnested
termination_by sizeOf a

/-- **Merging is associative where no kinds clash.** The two results are equal as lists of fields,
so the order of keys is the same as well. -/
theorem mergeAll_assoc {a b c : Document} (ha : a.wellKeyed = true) (hb : b.wellKeyed = true)
    (hc : c.wellKeyed = true) (hclash : clashes a b c = false) :
    mergeAll [a, mergeAll [b, c]] = mergeAll [a, b, c] ∧
      mergeAll [mergeAll [a, b], c] = mergeAll [a, b, c] := by
  refine ⟨?_, mergeAll_mergeAll a [b] [c]⟩
  rw [mergeAll_pair (distinct_of_wellKeyed ha), mergeAll_pair (distinct_of_wellKeyed hb),
    mergeWith_assoc ha hb hc hclash, ← mergeAll_pair (distinct_of_wellKeyed ha)]
  exact (mergeAll_concat [a, b] c).symm

/-- Settings that are layered over those of a site, and those over the ones of a vendor. -/
def ownSettings : Document :=
  [("dirs", .array [.string "own"]), ("name", .string "own"),
    ("memory", .object [("ranks", .ofNat 1), ("tags", .array [.ofNat 1])])]

def siteSettings : Document :=
  [("memory", .object [("tags", .array [.ofNat 2]), ("rows", .ofNat 8)]), ("cores", .ofNat 2)]

def vendorSettings : Document :=
  [("cores", .object []), ("dirs", .array [.string "vendor"]),
    ("memory", .object [("ranks", .object []), ("banks", .ofNat 4), ("tags", .array [.ofNat 3])])]

theorem mergeAll_assoc_ownSettings :
    (ownSettings.wellKeyed = true ∧ siteSettings.wellKeyed = true ∧
        vendorSettings.wellKeyed = true) ∧
      clashes ownSettings siteSettings vendorSettings = false ∧
      mergeAll [ownSettings, mergeAll [siteSettings, vendorSettings]] =
        mergeAll [ownSettings, siteSettings, vendorSettings] ∧
      mergeAll [mergeAll [ownSettings, siteSettings], vendorSettings] =
        mergeAll [ownSettings, siteSettings, vendorSettings] := by
  have hown : ownSettings.wellKeyed = true := by decide +kernel
  have hsite : siteSettings.wellKeyed = true := by decide +kernel
  have hvendor : vendorSettings.wellKeyed = true := by decide +kernel
  have hclash : clashes ownSettings siteSettings vendorSettings = false := by decide +kernel
  exact ⟨⟨hown, hsite, hvendor⟩, hclash, mergeAll_assoc hown hsite hvendor hclash⟩

/-- A number between two lists keeps them apart only where it is merged with the second one. -/
example :
    let list (n : Nat) : Document := [("dirs", .array [.ofNat n])]
    mergeAll [list 1, mergeAll [[("dirs", .ofNat 0)], list 2]] = list 1 ∧
      mergeAll [list 1, [("dirs", .ofNat 0)], list 2] =
        [("dirs", .array [.ofNat 1, .ofNat 2])] := by
  decide +kernel

end Document

end MemoryHierarchy
