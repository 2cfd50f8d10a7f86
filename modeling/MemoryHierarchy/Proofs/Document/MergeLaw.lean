import MemoryHierarchy.Proofs.Document.Merge

/-!
# The law of merging

Documents are merged one after the other, and two mappings that meet under a key are merged in the
same way, without rules. `Document.MergesTo` says what comes of all documents at once. The keys
stand in the order in which they are first met. A key with a rule folds its values; otherwise the
first value decides: a list is joined with the other lists, a mapping is merged with the other
mappings by the same law, and anything else stays. What is of another kind than the first value is
passed over, and does not stop what comes after it from being merged. `mergesTo_iff` proves that the
merge is the one document that keeps the law.

Mappings nest, so the proof goes from the documents to those that are nested in them
(`Document.layers_induction`).
-/

namespace MemoryHierarchy

/-- The items of a list. -/
def Json.array? : Json → Option (List Json)
  | .array items => some items
  | _ => none

mutual

/-- What documents come to where some keys have rules. The law speaks of all documents at once, not
of two at a time, so it does not depend on how merges are bracketed. -/
inductive Document.MergesTo : Document.MergeRules → List Document → Document → Prop
  | of_fields {rules : Document.MergeRules} {docs : List Document} {merged : Document}
      (keys : merged.keys = (docs.flatMap Document.keys).eraseDups)
      (values : ∀ key value, merged.get? key = some value →
        Json.MergesTo (rules key) (docs.filterMap (·.get? key)) value) :
      Document.MergesTo rules docs merged

/-- What the values under one key come to, of which there is at least one. The first value decides
which constructor applies; values of another kind than the first one are dropped. -/
inductive Json.MergesTo : Option (Json → Json → Json) → List Json → Json → Prop
  /-- A rule is folded over the values from the first one on. -/
  | rule (rule : Json → Json → Json) (first : Json) (rest : List Json) :
      Json.MergesTo (some rule) (first :: rest) (rest.foldl rule first)
  /-- A list is joined with all other lists. -/
  | list (items : List Json) (rest : List Json) :
      Json.MergesTo none (.array items :: rest)
        (.array (items ++ (rest.filterMap Json.array?).flatten))
  /-- A mapping is merged with all other mappings. -/
  | mapping {fields : Document} {rest : List Json} {merged : Document}
      (nested : Document.MergesTo .plain (fields :: rest.filterMap Json.object?) merged) :
      Json.MergesTo none (.object fields :: rest) (.object merged)
  /-- Anything else stays. -/
  | scalar {first : Json} (rest : List Json) (hscalar : first.isScalar = true) :
      Json.MergesTo none (first :: rest) first

end

/-! ## Names in the order in which they are first met

The keys of a merge are those of all documents, each of them where it comes first. The lemmas here
are about lists in which repetitions are dropped. -/

section

variable {α : Type} [BEq α] [LawfulBEq α]

theorem nodup_eraseDups (items : List α) : items.eraseDups.Nodup := by
  cases items with
  | nil => exact List.nodup_nil
  | cons item items =>
    rw [List.eraseDups_cons, List.nodup_cons, List.mem_eraseDups]
    exact ⟨by simp, nodup_eraseDups _⟩
termination_by items.length
decreasing_by exact Nat.lt_succ_of_le (List.length_filter_le _ _)

theorem eraseDups_of_nodup {items : List α} (hnodup : items.Nodup) : items.eraseDups = items := by
  induction items with
  | nil => rfl
  | cons item items ih =>
    obtain ⟨hitem, hrest⟩ := List.nodup_cons.mp hnodup
    have hfilter : items.filter (fun other => !other == item) = items := by
      rw [List.filter_eq_self]
      intro other hother
      simpa using ne_of_mem_of_not_mem hother hitem
    rw [List.eraseDups_cons, hfilter, ih hrest]

/-- Repetitions in what comes first may be dropped before. -/
theorem eraseDups_eraseDups_append (items others : List α) :
    (items.eraseDups ++ others).eraseDups = (items ++ others).eraseDups := by
  have hremoved : others.removeAll items.eraseDups = others.removeAll items := by
    unfold List.removeAll
    refine List.filter_congr fun other _ => ?_
    simp [List.mem_eraseDups]
  rw [List.eraseDups_append, List.eraseDups_append, hremoved,
    eraseDups_of_nodup (nodup_eraseDups items)]

end

namespace Document

variable {rules : MergeRules} {docs : List Document} {left right : Document} {key : String}

/-! ## The keys of a merge

Merging adds the keys that are missing at the end, so the order of the first document is kept. -/

theorem keys_mergeWith (rules : MergeRules) (hdistinct : left.Distinct) (right : Document) :
    (mergeWith rules left right).keys = (left.keys ++ right.keys).eraseDups := by
  induction right generalizing left with
  | nil =>
    show left.keys = (left.keys ++ []).eraseDups
    rw [List.append_nil, eraseDups_of_nodup hdistinct]
  | cons field right ih =>
    show (mergeWith rules (left.set field.1 _) right).keys =
      (left.keys ++ field.1 :: keys right).eraseDups
    rw [ih (distinct_set hdistinct _ _), keys_set]
    split
    · next hmem =>
      -- a key that is there is met no sooner in the second document
      rw [List.eraseDups_append, List.eraseDups_append, List.cons_removeAll,
        List.contains_iff_mem.mpr hmem]
      rfl
    · rw [List.append_assoc, List.singleton_append]

theorem keys_mergeAllWith (rules : MergeRules) (docs : List Document) :
    (mergeAllWith rules docs).keys = (docs.flatMap keys).eraseDups := by
  induction docs using List.reverseRecOn with
  | nil => rfl
  | append_singleton docs last ih =>
    rw [mergeAllWith_concat, keys_mergeWith rules (distinct_mergeAllWith rules docs), ih,
      eraseDups_eraseDups_append, List.flatMap_append, List.flatMap_singleton]

theorem eq_of_get?_eq (hdistinct : left.Distinct) (hkeys : left.keys = right.keys)
    (hget : ∀ key, left.get? key = right.get? key) : left = right := by
  induction left generalizing right with
  | nil => exact (List.map_eq_nil_iff.mp hkeys.symm).symm
  | cons field left ih =>
    obtain ⟨field', right, rfl⟩ : ∃ field' rest, right = field' :: rest :=
      List.exists_cons_of_ne_nil fun hnil => by rw [hnil] at hkeys; cases hkeys
    -- the first keys agree, and with the values under them the first fields do
    obtain ⟨hkey, hrest⟩ := List.cons.inj hkeys
    obtain ⟨hfield, hleft⟩ := List.nodup_cons.mp hdistinct
    have hvalue := hget field.1
    rw [get?_cons, if_pos rfl, get?_cons, if_pos hkey.symm, Option.some.injEq] at hvalue
    refine congrArg₂ _ (Prod.ext hkey hvalue) (ih hleft hrest fun key => ?_)
    by_cases heq : field.1 = key
    · -- below the first field its key does not occur
      subst heq
      rw [get?_eq_none_iff.mpr hfield, eq_comm, get?_eq_none_iff]
      rwa [← show keys left = keys right from hrest]
    · have hbelow := hget key
      rwa [get?_cons, if_neg heq, get?_cons, if_neg (hkey ▸ heq)] at hbelow

/-! ## The values of a merge

Under one key the merge is a fold over the values that the documents have there. What this fold does
depends on the first value: on a list it joins, on a mapping it merges, on anything else it stops.
-/

theorem get?_mergeAllWith (rules : MergeRules) (hdistinct : ∀ doc ∈ docs, doc.Distinct)
    (key : String) :
    (mergeAllWith rules docs).get? key =
      (docs.filterMap (·.get? key)).foldl
        (fun present value => some (combine rules key present value)) none := by
  induction docs using List.reverseRecOn with
  | nil => rfl
  | append_singleton docs last ih =>
    have hlast := hdistinct last (List.mem_append_right _ List.mem_cons_self)
    rw [mergeAllWith_concat, get?_mergeWith, valuesAt_of_distinct hlast, List.filterMap_append,
      List.foldl_append, ih fun doc hdoc => hdistinct doc (List.mem_append_left _ hdoc)]
    cases hvalue : last.get? key <;> simp [hvalue]

theorem foldl_combine (rules : MergeRules) (key : String) (first : Json) (rest : List Json) :
    rest.foldl (fun present value => some (combine rules key present value)) (some first) =
      some (rest.foldl ((rules key).getD Json.merge) first) := by
  induction rest generalizing first with
  | nil => rfl
  | cons value rest ih =>
    rw [List.foldl_cons, List.foldl_cons, ih]
    unfold combine
    cases rules key <;> rfl

theorem get?_mergeAllWith_of_values (rules : MergeRules) (hdistinct : ∀ doc ∈ docs, doc.Distinct)
    {first : Json} {rest : List Json} (hvalues : docs.filterMap (·.get? key) = first :: rest) :
    (mergeAllWith rules docs).get? key =
      some (rest.foldl ((rules key).getD Json.merge) first) := by
  rw [get?_mergeAllWith rules hdistinct, hvalues, List.foldl_cons]
  exact foldl_combine rules key first rest

end Document

namespace Json

theorem foldl_merge_array (items : List Json) (rest : List Json) :
    rest.foldl merge (.array items) = .array (items ++ (rest.filterMap array?).flatten) := by
  induction rest generalizing items with
  | nil => rw [List.filterMap_nil, List.flatten_nil, List.append_nil, List.foldl_nil]
  | cons value rest ih =>
    rw [List.foldl_cons, List.filterMap_cons]
    cases value <;> simp [merge, array?, ih]

theorem foldl_merge_of_isScalar {first : Json} (hscalar : first.isScalar = true)
    (rest : List Json) : rest.foldl merge first = first := by
  induction rest with
  | nil => rfl
  | cons value rest ih =>
    rw [List.foldl_cons]
    cases first <;> simp_all [merge, isScalar]

theorem foldl_merge_object {fields : Document} (hdistinct : Document.Distinct fields)
    (rest : List Json) :
    rest.foldl merge (.object fields) =
      .object (Document.mergeAll (fields :: rest.filterMap object?)) := by
  have hfold : ∀ fields : Document, rest.foldl merge (.object fields) =
      .object ((rest.filterMap object?).foldl (Document.mergeWith .plain) fields) := by
    induction rest with
    | nil => exact fun _ => rfl
    | cons value rest ih =>
      intro fields
      rw [List.foldl_cons, List.filterMap_cons]
      cases value <;> simp [merge, object?, ih, Document.mergeWith_plain]
  rw [hfold, Document.mergeAll, Document.mergeAllWith, List.foldl_cons,
    Document.mergeWith_nil .plain hdistinct]

end Json

namespace Document

/-! ## Documents inside documents

The law speaks of mappings inside mappings, to any depth. What is nested under a key is smaller than
the documents it is nested in, and the induction over documents goes along with it. -/

theorem sizeOf_lt_of_get? {doc fields : Document} (hfields : doc.get? key = some (.object fields)) :
    sizeOf fields < sizeOf doc := by
  have hfield := List.sizeOf_lt_of_mem (mem_of_get?_eq_some hfields)
  rw [Prod.mk.sizeOf_spec, Json.object.sizeOf_spec] at hfield
  omega

/-- What is nested in documents under a key that the first of them has a mapping under. -/
inductive Nested (docs : List Document) : List Document → Prop
  | mappings {key : String} {fields : Document} {rest : List Json}
      (hvalues : docs.filterMap (·.get? key) = .object fields :: rest) :
      Nested docs (fields :: rest.filterMap Json.object?)

theorem Nested.exists_get? {docs nested : List Document} (h : Nested docs nested)
    {fields : Document} (hfields : fields ∈ nested) :
    ∃ doc ∈ docs, ∃ key, doc.get? key = some (.object fields) := by
  cases h with
  | @mappings key first rest hvalues =>
    have hmem : Json.object fields ∈ docs.filterMap (·.get? key) := by
      rw [hvalues]
      rcases List.mem_cons.mp hfields with rfl | hrest
      · exact List.mem_cons_self
      · obtain ⟨value, hvalue, hobject⟩ := List.mem_filterMap.mp hrest
        refine List.mem_cons_of_mem _ ?_
        -- only mappings are nested
        cases value with
        | object other =>
          cases hobject
          exact hvalue
        | _ => cases hobject
    obtain ⟨doc, hdoc, hget⟩ := List.mem_filterMap.mp hmem
    exact ⟨doc, hdoc, key, hget⟩

/-- What holds of documents when it holds of all that is nested in them holds of all documents. -/
theorem layers_induction {motive : List Document → Prop}
    (step : ∀ docs, (∀ nested, Nested docs nested → motive nested) → motive docs)
    (docs : List Document) : motive docs := by
  -- the induction is on a bound for the sizes of the documents
  suffices ∀ (bound : Nat) (docs : List Document), (∀ doc ∈ docs, sizeOf doc < bound) →
      motive docs by
    refine this (sizeOf docs) docs fun doc hdoc => List.sizeOf_lt_of_mem hdoc
  intro bound
  induction bound with
  | zero =>
    intro docs hsize
    refine step docs fun nested h => ?_
    cases h with
    | mappings hvalues =>
      obtain ⟨doc, hdoc, _⟩ := Nested.exists_get? (.mappings hvalues) List.mem_cons_self
      exact absurd (hsize doc hdoc) (Nat.not_lt_zero _)
  | succ bound ih =>
    intro docs hsize
    refine step docs fun nested h => ih nested fun fields hfields => ?_
    obtain ⟨doc, hdoc, key, hget⟩ := h.exists_get? hfields
    have := sizeOf_lt_of_get? hget
    have := hsize doc hdoc
    omega

theorem distinct_of_wellKeyed {doc : Document} (hkeyed : doc.wellKeyed = true) : doc.Distinct := by
  rw [wellKeyed, Json.wellKeyed, Bool.and_eq_true, decide_eq_true_eq] at hkeyed
  exact hkeyed.1

theorem wellKeyed_of_get? {doc : Document} {value : Json} (hkeyed : doc.wellKeyed = true)
    (hvalue : doc.get? key = some value) : value.wellKeyed = true := by
  rw [wellKeyed, Json.wellKeyed, Bool.and_eq_true] at hkeyed
  have hfields := hkeyed.2
  clear hkeyed
  induction doc with
  | nil => cases hvalue
  | cons field doc ih =>
    rw [Json.fieldsWellKeyed, Bool.and_eq_true] at hfields
    rw [get?_cons] at hvalue
    split at hvalue
    · rw [← Option.some.inj hvalue]
      exact hfields.1
    · exact ih hvalue hfields.2

theorem Nested.wellKeyed {docs nested : List Document} (h : Nested docs nested)
    (hkeyed : ∀ doc ∈ docs, doc.wellKeyed = true) : ∀ doc ∈ nested, doc.wellKeyed = true := by
  intro fields hfields
  obtain ⟨doc, hdoc, key, hget⟩ := h.exists_get? hfields
  exact wellKeyed_of_get? (hkeyed doc hdoc) hget

/-! ## The merge keeps the law, and nothing else does

Two documents with the same keys in the same order and the same values are equal, and the law
determines both. So the merge is the only document that keeps it. -/

end Document

theorem Json.MergesTo.ne_nil {rule : Option (Json → Json → Json)} {values : List Json}
    {value : Json} (h : Json.MergesTo rule values value) : values ≠ [] := by
  cases h <;> exact List.cons_ne_nil _ _

/-- Under one key the law determines the value, if it determines what is nested below it. -/
theorem Json.mergesTo_cons_iff {rule : Option (Json → Json → Json)} {first value : Json}
    {rest : List Json} (hkeyed : first.wellKeyed = true)
    (hnested : ∀ fields, first = .object fields → ∀ merged,
      Document.MergesTo .plain (fields :: rest.filterMap Json.object?) merged ↔
        merged = Document.mergeAll (fields :: rest.filterMap Json.object?)) :
    Json.MergesTo rule (first :: rest) value ↔ value = rest.foldl (rule.getD Json.merge) first := by
  have hmapping : ∀ fields, first = .object fields → rest.foldl merge first =
      .object (Document.mergeAll (fields :: rest.filterMap Json.object?)) := by
    rintro fields rfl
    exact foldl_merge_object (Document.distinct_of_wellKeyed hkeyed) rest
  constructor
  · intro h
    cases h with
    | rule => rfl
    | list items => exact (foldl_merge_array items rest).symm
    | @mapping fields _ merged nested =>
      rw [(hnested fields rfl merged).mp nested]
      exact (hmapping fields rfl).symm
    | scalar _ hscalar => exact (foldl_merge_of_isScalar hscalar rest).symm
  · rintro rfl
    cases rule with
    | some rule => exact .rule rule first rest
    | none =>
      rw [Option.getD_none]
      -- the first value decides: a list joins the lists, a mapping merges the mappings, and
      -- anything else stays
      cases first with
      | array items =>
        rw [foldl_merge_array]
        exact .list items rest
      | object fields =>
        rw [hmapping fields rfl]
        exact .mapping ((hnested fields rfl _).mpr rfl)
      | _ =>
        rw [foldl_merge_of_isScalar rfl]
        exact .scalar rest rfl

namespace Document

variable {rules : MergeRules} {docs : List Document} {merged : Document}

/-- **The merge is what the law says**, of any documents that are mappings throughout. The law has
one result, so nothing of the merge is left open by it. -/
theorem mergesTo_iff (hkeyed : ∀ doc ∈ docs, doc.wellKeyed = true) :
    MergesTo rules docs merged ↔ merged = mergeAllWith rules docs := by
  induction docs using layers_induction generalizing rules merged with
  | step docs ih =>
    have hdistinct : ∀ doc ∈ docs, doc.Distinct :=
      fun doc hdoc => distinct_of_wellKeyed (hkeyed doc hdoc)
    -- the value under a key of one of the documents is the one that the law determines
    have hvalue : ∀ key first rest, docs.filterMap (·.get? key) = first :: rest → ∀ value,
        Json.MergesTo (rules key) (first :: rest) value ↔
          (mergeAllWith rules docs).get? key = some value := by
      intro key first rest hvalues value
      have hfirst : first ∈ docs.filterMap (·.get? key) := hvalues ▸ List.mem_cons_self
      obtain ⟨doc, hdoc, hget⟩ := List.mem_filterMap.mp hfirst
      rw [get?_mergeAllWith_of_values rules hdistinct hvalues, Option.some.injEq, eq_comm]
      refine Json.mergesTo_cons_iff (wellKeyed_of_get? (hkeyed doc hdoc) hget)
        fun fields hfields _ => ?_
      have hnested : Nested docs (fields :: rest.filterMap Json.object?) :=
        .mappings (hfields ▸ hvalues)
      exact ih _ hnested (hnested.wellKeyed hkeyed)
    constructor
    · rintro ⟨hkeys, hvalues⟩
      have hsame : merged.keys = (mergeAllWith rules docs).keys :=
        hkeys.trans (keys_mergeAllWith rules docs).symm
      have hmerged : merged.Distinct := by
        rw [Distinct, hkeys]
        exact nodup_eraseDups _
      refine eq_of_get?_eq hmerged hsame fun key => ?_
      cases hget : merged.get? key with
      | none =>
        rw [get?_eq_none_iff, hsame, ← get?_eq_none_iff] at hget
        exact hget.symm
      | some value =>
        have hlaw := hvalues key value hget
        obtain ⟨first, rest, hlist⟩ := List.exists_cons_of_ne_nil hlaw.ne_nil
        rw [hlist] at hlaw
        exact ((hvalue key first rest hlist value).mp hlaw).symm
    · rintro rfl
      refine .of_fields (keys_mergeAllWith rules docs) fun key value hget => ?_
      cases hlist : docs.filterMap (·.get? key) with
      | nil =>
        rw [get?_mergeAllWith rules hdistinct, hlist] at hget
        cases hget
      | cons first rest => exact (hvalue key first rest hlist value).mpr hget

/-- Three layers of which the middle one has other kinds of values. They are dropped where the first
layer has a list or a mapping, and the third layer is joined to the first. -/
def layeredSettings : List Document :=
  [[("name", .string "base"), ("dirs", .array [.string "a"]),
      ("memory", .object [("ranks", .ofNat 1), ("tags", .array [.ofNat 1])])],
    [("memory", .null), ("dirs", .string "b"), ("cores", .ofNat 2), ("name", .string "fast")],
    [("cores", .object []), ("memory", .object [("tags", .array [.ofNat 2]), ("rows", .ofNat 8)]),
      ("dirs", .array [.string "c"]), ("name", .string "last")]]

theorem mergesTo_layeredSettings :
    (∀ doc ∈ layeredSettings, doc.wellKeyed = true) ∧
      MergesTo (MergeRules.plain.withRule "name" fun _ later => later) layeredSettings
        [("name", .string "last"), ("dirs", .array [.string "a", .string "c"]),
          ("memory", .object [("ranks", .ofNat 1), ("tags", .array [.ofNat 1, .ofNat 2]),
            ("rows", .ofNat 8)]),
          ("cores", .ofNat 2)] := by
  have hkeyed : ∀ doc ∈ layeredSettings, doc.wellKeyed = true := by decide +kernel
  exact ⟨hkeyed, (mergesTo_iff hkeyed).mpr (by decide +kernel)⟩

end Document

end MemoryHierarchy
