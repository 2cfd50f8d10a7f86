import MemoryHierarchy.Proofs.Model.Fit

/-!
# What typing a record keeps

A cache or a core that was read from a document writes the document again (`Cache.Kept`,
`Core.Kept`): its options are what the document has under keys that are no fields, and its fields
are written as they were read. Some fields are written in one form whatever they were read from: the
frequency and its scale as doubles, the translator of a cache as null where it is missing, and the
instruction buffer of a core as a mapping. Reading depends on those through their readers alone
(`Cache.ofDocument_of_agreesOff`, `Core.ofDocument_of_agreesOff`), so the record that is written is
read back (`Model.typing_keeps_records`).
-/

namespace MemoryHierarchy

variable {doc doc' : Document} {keys : List String} {key : String} {α : Type}

/-! ## Values that are written as they were read

Strings, truth values, natural numbers and lists of strings are written back to the value that was
read. This fails for clocks, which may be given as integers, and for instruction buffers. -/

namespace Reader

/-- What a reader accepts is the value that is written for what it reads. Readers that accept
integers for floating-point numbers are not exact. -/
def Exact (reader : Reader α) (write : α → Json) : Prop :=
  ∀ ⦃value a⦄, reader value = .ok a → value = write a

theorem exact_string : string.Exact .string := by
  intro value s hread
  cases value with
  | string _ => rw [Except.ok.inj hread]
  | _ => cases hread

theorem exact_boolean : boolean.Exact .bool := by
  intro value b hread
  cases value with
  | bool _ => rw [Except.ok.inj hread]
  | _ => cases hread

theorem exact_natural {bound : Nat} {expected : Expected} :
    (natural bound expected).Exact .ofNat :=
  fun _ _ hread => (eq_ofNat_of_natural hread).1

theorem exact_strings : strings.Exact .ofStrings := by
  intro value names hread
  cases value with
  | array items =>
    have hitems : items = names.map .string := by
      rw [← List.forall₂_eq_eq_eq, List.forall₂_map_right_iff]
      exact (mapM_eq_ok_iff.mp hread).imp fun _ _ hitem => exact_string hitem
    rw [hitems, Json.ofStrings]
  | _ => cases hread

theorem Exact.get? {reader : Reader α} {write : α → Json} (hexact : reader.Exact write) {a : α}
    (hread : doc.read reader key = .ok a) : doc.get? key = some (write a) := by
  obtain ⟨value, hvalue, hread⟩ := Document.read_eq_ok_iff.mp hread
  rw [hvalue, hexact hread]

theorem natural_ofNat {bound n : Nat} (hn : n < bound) (expected : Expected) :
    natural bound expected (.ofNat n) = .ok n := by
  have hrange : 0 ≤ (n : Int) ∧ (n : Int) < bound :=
    ⟨Int.natCast_nonneg n, Int.ofNat_lt.mpr hn⟩
  rw [Json.ofNat, natural, if_pos hrange, Int.toNat_natCast]

theorem read_natural {bound n : Nat} {expected : Expected} (hget : doc.get? key = some (.ofNat n))
    (hn : n < bound) : doc.read (natural bound expected) key = .ok n := by
  rw [Document.read, hget]
  exact natural_ofNat hn expected

theorem lt_of_natural {bound n : Nat} {expected : Expected}
    (hread : ∃ m, natural bound expected (.ofNat n) = .ok m) : n < bound := by
  obtain ⟨m, hm⟩ := hread
  obtain ⟨heq, hlt⟩ := eq_ofNat_of_natural hm
  obtain rfl : n = m := by simpa only [Json.ofNat, Json.number.injEq, Number.integer.injEq,
    Int.natCast_inj] using heq
  exact hlt

end Reader

/-! ## Documents as maps

The options of a record are a map, whose entries come in the order of the keys. A document without
repeated keys can be recovered from them up to that order. -/

namespace Document

theorem get?_filter (p : String → Bool) (doc : Document) (key : String) :
    get? (doc.filter fun field => p field.1) key = if p key then doc.get? key else none := by
  induction doc with
  | nil => simp
  | cons field doc ih =>
    rw [List.filter_cons]
    by_cases hfield : field.1 = key
    · subst hfield
      cases hp : p field.1 with
      | false => simpa [hp] using ih
      | true => simp [get?_cons]
    · cases hp : p field.1 with
      | false => simpa [get?_cons, hfield] using ih
      | true => simpa [get?_cons, hfield] using ih

theorem getElem?_ofList (hdistinct : doc.Distinct) (key : String) :
    (Std.ExtTreeMap.ofList doc : NameMap Json)[key]? = doc.get? key := by
  cases hget : doc.get? key with
  | none =>
    rw [Std.ExtTreeMap.getElem?_ofList_of_contains_eq_false]
    simpa [keys] using get?_eq_none_iff.mp hget
  | some value =>
    refine Std.ExtTreeMap.getElem?_ofList_of_mem Std.compare_self ?_
      ((get?_eq_some_iff hdistinct).mp hget)
    simpa only [Std.compare_eq_iff_eq] using List.pairwise_map.mp hdistinct

theorem distinct_toList (m : NameMap Json) : Document.Distinct m.toList := by
  rw [Distinct, Document.keys, Std.ExtTreeMap.map_fst_toList_eq_keys]
  exact Std.ExtTreeMap.nodup_keys

theorem get?_toList (m : NameMap Json) (key : String) : Document.get? m.toList key = m[key]? := by
  ext value
  rw [Document.get?_eq_some_iff (distinct_toList m),
    Std.ExtTreeMap.mem_toList_iff_getElem?_eq_some]

theorem float?_of_read {x : Float} (hread : doc.read .float key = .ok x) :
    doc.float? key = some x := by
  obtain ⟨value, hvalue, hread⟩ := read_eq_ok_iff.mp hread
  rw [float?, hvalue, Option.bind_some]
  cases value with
  | number n => rw [Json.float?, Except.ok.inj hread]
  | _ => cases hread

/-- A value that may be left out is left out, is null or is a string. -/
theorem getD_of_readOptional {s? : Option String}
    (hread : doc.readOptional .nullableString key = .ok s?) :
    (doc.get? key).getD .null = s?.elim .null .string := by
  unfold readOptional at hread
  cases hget : doc.get? key with
  | none =>
    rw [hget] at hread
    rw [← Except.ok.inj hread]
    rfl
  | some value =>
    rw [hget] at hread
    cases value with
    | null => rw [← Except.ok.inj hread]; rfl
    | string s => rw [← Except.ok.inj hread]; rfl
    | _ => cases hread

theorem AgreesOff.read (hoff : doc.AgreesOff keys doc') (reader : Reader α) (hkey : key ∉ keys) :
    doc'.read reader key = doc.read reader key := by
  rw [Document.read, Document.read, hoff key hkey]

end Document

/-! ## Fields and what is no field

A document has fields, which become components of a record, and other keys, which become its
options. Both parts are written one behind the other, and they share no key. -/

/-- A field that may be left out fits when it is read. -/
theorem Field.fits_optionalField {reader : Reader (Option α)} {a : Option α}
    (hread : doc.readOptional reader key = .ok a) : (reader.optionalField key).Fits doc := by
  refine Field.fits_iff.mpr ⟨fun value (hvalue : doc.get? key = some value) => ?_, nofun⟩
  rw [Document.readOptional, hvalue] at hread
  exact Field.map_unit_eq_ok_iff.mpr ⟨a, hread⟩

namespace Schema

variable {schema : Schema}

/-- The options of a record are what the document has under keys that are no fields. -/
theorem getElem?_others (schema : Schema) (hdistinct : doc.Distinct) (key : String) :
    (schema.others doc)[key]? = if key ∈ schema.keys then none else doc.get? key := by
  have hrest : Document.Distinct (doc.filter fun field => field.1 ∉ schema.keys) :=
    List.Nodup.sublist (List.filter_sublist.map Prod.fst) hdistinct
  rw [others, Document.getElem?_ofList hrest, Document.get?_filter (fun key => key ∉ schema.keys)]
  by_cases hkey : key ∈ schema.keys
  · simp [hkey]
  · simp [hkey]

theorem others_congr (hdistinct : doc.Distinct) (hdistinct' : doc'.Distinct)
    (hoff : doc.AgreesOff keys doc') (hkeys : keys ⊆ schema.keys) :
    schema.others doc' = schema.others doc := by
  refine Std.ExtTreeMap.ext_getElem? fun key => ?_
  rw [getElem?_others schema hdistinct', getElem?_others schema hdistinct]
  split
  · rfl
  · next hkey => rw [hoff key fun hmem => hkey (hkeys hmem)]

/-- A document that fits a schema passes its check again when it is changed in fields that fit. -/
theorem check_of_agreesOff (hkeys : schema.keys.Nodup) (hdistinct : doc.Distinct)
    (hdistinct' : doc'.Distinct) (hfits : schema.Fits doc) (hoff : doc.AgreesOff keys doc')
    (hchanged : Schema.Fits (schema.filter fun field => field.key ∈ keys) doc') :
    schema.check doc' = schema.check doc := by
  have hfits' : schema.Fits doc' := by
    intro field hfield
    by_cases hkey : field.key ∈ keys
    · exact hchanged field (List.mem_filter.mpr ⟨hfield, decide_eq_true hkey⟩)
    · unfold Field.Fits
      rw [hoff field.key hkey]
      exact hfits field hfield
  rw [(check_eq_ok_iff hkeys hdistinct').mpr hfits', (check_eq_ok_iff hkeys hdistinct).mpr hfits]

variable {declared : Document}

/-- A record that is written has its fields and then its options, and no key of both. -/
theorem distinct_append_others (hkeys : schema.keys.Nodup) (hdistinct : doc.Distinct)
    (hdeclared : declared.keys = schema.keys) :
    Document.Distinct (declared ++ (schema.others doc).toList) := by
  unfold Document.Distinct Document.keys
  rw [List.map_append, ← Document.keys, hdeclared]
  refine List.nodup_append.mpr ⟨hkeys, Document.distinct_toList _, ?_⟩
  rintro key hfield _ hoption rfl
  have hget : (schema.others doc)[key]? = none := by
    rw [getElem?_others schema hdistinct, if_pos hfield]
  rw [← Document.get?_toList, Document.get?_eq_none_iff] at hget
  exact hget hoption

/-- A record that is written agrees with the document where its fields do. -/
theorem agreesOff_append_others (hdistinct : doc.Distinct) (hdeclared : declared.keys = schema.keys)
    (hfields : ∀ entry ∈ declared, entry.1 ∉ keys → doc.get? entry.1 = some entry.2) :
    doc.AgreesOff keys (declared ++ (schema.others doc).toList) := by
  -- an option is an entry of the document under a key that is no field
  have hoption : ∀ key value, (key, value) ∈ (schema.others doc).toList →
      doc.get? key = some value := by
    intro key value hmem
    rw [Std.ExtTreeMap.mem_toList_iff_getElem?_eq_some, getElem?_others schema hdistinct] at hmem
    exact (Option.ite_none_left_eq_some.mp hmem).2
  refine .of_entries ?_ fun key _ habsent => ?_
  · rintro ⟨key, value⟩ hentry hkey
    rcases List.mem_append.mp hentry with hfield | hother
    · exact hfields _ hfield hkey
    · exact hoption key value hother
  · rw [Document.keys, List.map_append, List.mem_append, not_or, ← Document.keys, hdeclared,
      ← Document.keys] at habsent
    have hget := Document.get?_eq_none_iff.mpr habsent.2
    rw [Document.get?_toList, getElem?_others schema hdistinct, if_neg habsent.1] at hget
    exact hget

end Schema

/-! ## Caches

Three fields of a cache are written in one form, whatever they were read from: clocks, which may
have been integers, and the translator, which may have been null. All others can be compared as they
stand. -/

namespace Cache

/-- The fields that a cache writes in one form, whatever they were read from. -/
def rewrittenKeys : List String := ["frequency", "clock_scale", "lower_translate"]

variable {c : Cache}

/-- The other fields are written as they were read. -/
theorem agreesOff_document (hdistinct : doc.Distinct) (hread : ofDocument doc = .ok c) :
    doc.AgreesOff rewrittenKeys c.document := by
  simp only [ofDocument, bind_eq_ok_iff, pure_eq_ok_iff] at hread
  -- the sizes, the latencies and bandwidths, the switches, the links and modules
  obtain ⟨_, -, name, hname, _, -, _, -, level, hlevel, sets, hsets, ways, hways, reads, hreads,
    writes, hwrites, prefetches, hprefetches, misses, hmisses, hread⟩ := hread
  obtain ⟨latency, hlatency, hit, hhit, fill, hfill, tags, htags, fills, hfills, offset, hoffset,
    hread⟩ := hread
  obtain ⟨load, hload, full, hfull, virtual, hvirtual, needs, hneeds, hread⟩ := hread
  obtain ⟨activate, hactivate, lower, hlower, _, -, prefetchers, hprefetchers, replacements,
    hreplacements, hread⟩ := hread
  subst hread
  refine Schema.agreesOff_append_others hdistinct rfl ?_
  -- a field that is rewritten has a key for which nothing is claimed
  simp only [List.forall_mem_cons]
  exact ⟨fun _ => Reader.exact_string.get? hname, fun hkey => (hkey (by decide)).elim,
    fun hkey => (hkey (by decide)).elim, fun _ => Reader.exact_natural.get? hlevel,
    fun _ => Reader.exact_natural.get? hsets, fun _ => Reader.exact_natural.get? hways,
    fun _ => Reader.exact_natural.get? hreads, fun _ => Reader.exact_natural.get? hwrites,
    fun _ => Reader.exact_natural.get? hprefetches, fun _ => Reader.exact_natural.get? hmisses,
    fun _ => Reader.exact_natural.get? hlatency, fun _ => Reader.exact_natural.get? hhit,
    fun _ => Reader.exact_natural.get? hfill, fun _ => Reader.exact_natural.get? htags,
    fun _ => Reader.exact_natural.get? hfills, fun _ => Reader.exact_natural.get? hoffset,
    fun _ => Reader.exact_boolean.get? hload, fun _ => Reader.exact_boolean.get? hfull,
    fun _ => Reader.exact_boolean.get? hvirtual, fun _ => Reader.exact_boolean.get? hneeds,
    fun _ => Reader.exact_strings.get? hactivate, fun _ => Reader.exact_string.get? hlower,
    fun hkey => (hkey (by decide)).elim, fun _ => Reader.exact_strings.get? hprefetchers,
    fun _ => Reader.exact_strings.get? hreplacements, by simp⟩

/-- **Reading a cache depends on the rewritten fields through what is read of them.** -/
theorem ofDocument_of_agreesOff (hdistinct : doc.Distinct) (hdistinct' : doc'.Distinct)
    (hread : ofDocument doc = .ok c) (hoff : doc.AgreesOff rewrittenKeys doc')
    (hfrequency' : doc'.read .float "frequency" = .ok c.frequency)
    (hscale' : doc'.read .float "clock_scale" = .ok c.clockScale)
    (htranslate' : doc'.readOptional .nullableString "lower_translate" = .ok c.lowerTranslate) :
    ofDocument doc' = .ok c := by
  have hfrom := readFrom_of_ofDocument hread
  -- the check passes again, as the changed fields fit
  have hcheck : schema.check doc' = schema.check doc := by
    -- the first document passes, so the second one does if the rewritten fields can be read in it
    refine Schema.check_of_agreesOff (by decide) hdistinct hdistinct'
      ((exists_ofDocument_iff hdistinct).mp ⟨c, hread⟩) hoff ?_
    have hchanged : schema.filter (·.key ∈ rewrittenKeys) =
        [Reader.float.field "frequency", Reader.float.field "clock_scale",
          Reader.nullableString.optionalField "lower_translate"] := rfl
    rw [hchanged, Schema.Fits]
    simp only [List.forall_mem_cons]
    exact ⟨Field.fits_field_iff.mpr ⟨_, hfrequency'⟩, Field.fits_field_iff.mpr ⟨_, hscale'⟩,
      Field.fits_optionalField htranslate', by simp⟩
  have hothers : schema.others doc' = schema.others doc :=
    Schema.others_congr hdistinct hdistinct' hoff (by decide)
  -- all other fields are read from equal values
  have hkept := fun {α : Type} (reader : Reader α) (key : String) (hkey : key ∉ rewrittenKeys) =>
    hoff.read reader hkey
  rw [← hread]
  unfold ofDocument
  simp (disch := decide) only [hcheck, hothers, hkept, hfrom.frequency, hfrequency',
    hfrom.clockScale, hscale', hfrom.lowerTranslate, htranslate']

theorem distinct_document (hdistinct : doc.Distinct) (hread : ofDocument doc = .ok c) :
    c.document.Distinct := by
  rw [document, (readFrom_of_ofDocument hread).options]
  exact Schema.distinct_append_others (by decide) hdistinct rfl

theorem readOptional_document (c : Cache) :
    c.document.readOptional .nullableString "lower_translate" = .ok c.lowerTranslate := by
  show Reader.nullableString _ = _
  cases c.lowerTranslate with
  | none => rfl
  | some target => rfl

/-- What a cache keeps of the document that it was read from. Fields that are rewritten keep their
value but not its form, and whatever is no field is kept among the options. -/
structure Kept (c : Cache) (doc : Document) : Prop where
  /-- The options are the values under the keys that are no fields. -/
  options : ∀ key : String, c.options[key]? = if key ∈ schema.keys then none else doc.get? key
  /-- Whatever is not rewritten is written as it was read. -/
  values : doc.AgreesOff rewrittenKeys c.document
  frequency : doc.float? "frequency" = some c.frequency
  clockScale : doc.float? "clock_scale" = some c.clockScale
  /-- A translator is missing, null or a name. -/
  lowerTranslate : (doc.get? "lower_translate").getD .null = c.lowerTranslate.elim .null .string
  /-- No key is written twice. -/
  distinct : c.document.Distinct
  reread : ofDocument c.document = .ok c

theorem kept (hdistinct : doc.Distinct) (hread : ofDocument doc = .ok c) : c.Kept doc := by
  have hfrom := readFrom_of_ofDocument hread
  have hvalues := agreesOff_document hdistinct hread
  have hdistinct' := distinct_document hdistinct hread
  -- options and values as they were read, the clocks and the buffer by what is read of them
  refine ⟨fun key => ?_, hvalues, Document.float?_of_read hfrom.frequency,
    Document.float?_of_read hfrom.clockScale, Document.getD_of_readOptional hfrom.lowerTranslate,
    hdistinct', ?_⟩
  · rw [hfrom.options, Schema.getElem?_others schema hdistinct]
  · exact ofDocument_of_agreesOff hdistinct hdistinct' hread hvalues rfl rfl
      (readOptional_document c)

end Cache

/-! ## Instruction buffers

An instruction buffer is a mapping or a list of three numbers. It is written as a mapping, so
reading again goes through the other branch for a list. -/

namespace InstructionBuffer

/-- The sizes of an instruction buffer are words. -/
structure InRange (b : InstructionBuffer) : Prop where
  window : b.window < UInt64.size
  sets : b.sets < UInt64.size
  ways : b.ways < UInt64.size

/-- An instruction buffer as a list. -/
def items (b : InstructionBuffer) : List Json := [.ofNat b.window, .ofNat b.sets, .ofNat b.ways]

/-- A value holds an instruction buffer by key or by place. A mapping may have other keys, which are
not kept. -/
inductive HeldIn (b : InstructionBuffer) : Json → Prop
  | mapping {fields : Document} (hwindow : fields.get? "window_size" = some (.ofNat b.window))
      (hsets : fields.get? "sets" = some (.ofNat b.sets))
      (hways : fields.get? "ways" = some (.ofNat b.ways)) : HeldIn b (.object fields)
  | items : HeldIn b (.array b.items)

variable {b : InstructionBuffer} {value : Json}

theorem heldIn_of_ofDocument {fields : Document} (hread : ofDocument fields = .ok b) :
    b.HeldIn (.object fields) ∧ b.InRange := by
  simp only [ofDocument, bind_eq_ok_iff, pure_eq_ok_iff, Document.read_eq_ok_iff] at hread
  obtain ⟨_, -, window, ⟨_, hwindow, hwindow'⟩, sets, ⟨_, hsets, hsets'⟩, ways,
    ⟨_, hways, hways'⟩, rfl⟩ := hread
  obtain ⟨rfl, hwindowRange⟩ := Reader.eq_ofNat_of_natural hwindow'
  obtain ⟨rfl, hsetsRange⟩ := Reader.eq_ofNat_of_natural hsets'
  obtain ⟨rfl, hwaysRange⟩ := Reader.eq_ofNat_of_natural hways'
  exact ⟨.mapping hwindow hsets hways, hwindowRange, hsetsRange, hwaysRange⟩

theorem heldIn_of_ofItems {items : List Json} (hread : ofItems items = .ok b) :
    b.HeldIn (.array items) ∧ b.InRange := by
  obtain rfl : items = b.items := eq_of_ofItems hread
  obtain ⟨numbers, hnumbers, -⟩ := bind_eq_ok_iff.mp hread
  have hwords : ∀ value ∈ b.items, ∃ n, Reader.word value = .ok n :=
    exists_mapM_eq_ok_iff.mp ⟨numbers, hnumbers⟩
  simp only [InstructionBuffer.items, List.forall_mem_cons] at hwords
  exact ⟨.items, Reader.lt_of_natural hwords.1, Reader.lt_of_natural hwords.2.1,
    Reader.lt_of_natural hwords.2.2.1⟩

theorem heldIn_of_read (hread : read value = .ok b) : b.HeldIn value ∧ b.InRange := by
  cases value with
  | object fields => exact heldIn_of_ofDocument hread
  | array items => exact heldIn_of_ofItems hread
  | _ => cases hread

/-- **An instruction buffer is read from every value that holds it.** -/
theorem read_of_heldIn (hrange : b.InRange) (hheld : b.HeldIn value)
    (hwellKeyed : value.wellKeyed = true) : read value = .ok b := by
  cases hheld with
  | @mapping fields hwindow hsets hways =>
    have hdistinct : fields.Distinct := by
      rw [Json.wellKeyed, Bool.and_eq_true, decide_eq_true_eq] at hwellKeyed
      exact hwellKeyed.1
    have hwindow' : fields.read .word "window_size" = .ok b.window :=
      Reader.read_natural hwindow hrange.window
    have hsets' : fields.read .word "sets" = .ok b.sets := Reader.read_natural hsets hrange.sets
    have hways' : fields.read .word "ways" = .ok b.ways := Reader.read_natural hways hrange.ways
    have hcheck : schema.check fields = .ok () := by
      rw [Schema.check_eq_ok_iff (by decide) hdistinct, Schema.Fits, schema]
      simp only [List.forall_mem_cons, Field.fits_field_iff]
      exact ⟨⟨_, hwindow'⟩, ⟨_, hsets'⟩, ⟨_, hways'⟩, by simp⟩
    rw [read, ofDocument, hcheck, hwindow', hsets', hways']
    rfl
  | items =>
    -- a list is read by place
    have hmapM : (b.items.take 3).mapM Reader.word = .ok [b.window, b.sets, b.ways] := by
      rw [mapM_eq_ok_iff]
      exact .cons (Reader.natural_ofNat hrange.window _) (.cons
        (Reader.natural_ofNat hrange.sets _) (.cons (Reader.natural_ofNat hrange.ways _) .nil))
    rw [read, ofItems, hmapM]
    rfl

theorem heldIn_document (b : InstructionBuffer) : b.HeldIn (.object b.document) :=
  .mapping rfl rfl rfl

end InstructionBuffer

/-! ## Cores

Cores are treated as caches are, with the instruction buffer among the rewritten fields. -/

namespace Core

/-- The fields that a core writes in one form, whatever they were read from. -/
def rewrittenKeys : List String := ["frequency", "clock_scale", "DIB"]

variable {c : Core}

/-- The other fields are written as they were read. -/
theorem agreesOff_document (hdistinct : doc.Distinct) (hread : ofDocument doc = .ok c) :
    doc.AgreesOff rewrittenKeys c.document := by
  simp only [ofDocument, bind_eq_ok_iff, pure_eq_ok_iff] at hread
  -- the buffers and queues, the widths, the latencies, the links and modules
  obtain ⟨_, -, name, hname, index, hindex, _, -, _, -, _, -, fetch, hfetch, decode, hdecode,
    dispatch, hdispatch, reorder, hreorder, loads, hloads, stores, hstores, hread⟩ := hread
  obtain ⟨fetches, hfetches, decodes, hdecodes, dispatches, hdispatches, scheduler, hscheduler,
    executes, hexecutes, loadWidth, hloadWidth, storeWidth, hstoreWidth, retires, hretires,
    hread⟩ := hread
  obtain ⟨penalty, hpenalty, decodeLatency, hdecodeLatency, dispatchLatency, hdispatchLatency,
    scheduleLatency, hscheduleLatency, executeLatency, hexecuteLatency, hread⟩ := hread
  obtain ⟨l1i, hl1i, l1d, hl1d, itlb, hitlb, dtlb, hdtlb, predictors, hpredictors, targets,
    htargets, hread⟩ := hread
  subst hread
  refine Schema.agreesOff_append_others hdistinct rfl ?_
  -- a field that is rewritten has a key for which nothing is claimed
  simp only [List.forall_mem_cons]
  exact ⟨fun _ => Reader.exact_string.get? hname, fun _ => Reader.exact_natural.get? hindex,
    fun hkey => (hkey (by decide)).elim, fun hkey => (hkey (by decide)).elim,
    fun hkey => (hkey (by decide)).elim, fun _ => Reader.exact_natural.get? hfetch,
    fun _ => Reader.exact_natural.get? hdecode, fun _ => Reader.exact_natural.get? hdispatch,
    fun _ => Reader.exact_natural.get? hreorder, fun _ => Reader.exact_natural.get? hloads,
    fun _ => Reader.exact_natural.get? hstores, fun _ => Reader.exact_natural.get? hfetches,
    fun _ => Reader.exact_natural.get? hdecodes, fun _ => Reader.exact_natural.get? hdispatches,
    fun _ => Reader.exact_natural.get? hscheduler, fun _ => Reader.exact_natural.get? hexecutes,
    fun _ => Reader.exact_natural.get? hloadWidth, fun _ => Reader.exact_natural.get? hstoreWidth,
    fun _ => Reader.exact_natural.get? hretires, fun _ => Reader.exact_natural.get? hpenalty,
    fun _ => Reader.exact_natural.get? hdecodeLatency,
    fun _ => Reader.exact_natural.get? hdispatchLatency,
    fun _ => Reader.exact_natural.get? hscheduleLatency,
    fun _ => Reader.exact_natural.get? hexecuteLatency, fun _ => Reader.exact_string.get? hl1i,
    fun _ => Reader.exact_string.get? hl1d, fun _ => Reader.exact_string.get? hitlb,
    fun _ => Reader.exact_string.get? hdtlb, fun _ => Reader.exact_strings.get? hpredictors,
    fun _ => Reader.exact_strings.get? htargets, by simp⟩

/-- **Reading a core depends on the rewritten fields through what is read of them.** -/
theorem ofDocument_of_agreesOff (hdistinct : doc.Distinct) (hdistinct' : doc'.Distinct)
    (hread : ofDocument doc = .ok c) (hoff : doc.AgreesOff rewrittenKeys doc')
    (hfrequency' : doc'.read .float "frequency" = .ok c.frequency)
    (hscale' : doc'.read .float "clock_scale" = .ok c.clockScale)
    (hbuffer' : doc'.read InstructionBuffer.read "DIB" = .ok c.instructionBuffer) :
    ofDocument doc' = .ok c := by
  have hfrom := readFrom_of_ofDocument hread
  have hcheck : schema.check doc' = schema.check doc := by
    refine Schema.check_of_agreesOff (by decide) hdistinct hdistinct'
      ((exists_ofDocument_iff hdistinct).mp ⟨c, hread⟩) hoff ?_
    have hchanged : schema.filter (·.key ∈ rewrittenKeys) =
        [Reader.float.field "frequency", Reader.float.field "clock_scale",
          InstructionBuffer.read.field "DIB"] := rfl
    rw [hchanged, Schema.Fits]
    simp only [List.forall_mem_cons, Field.fits_field_iff]
    exact ⟨⟨_, hfrequency'⟩, ⟨_, hscale'⟩, ⟨_, hbuffer'⟩, by simp⟩
  have hothers : schema.others doc' = schema.others doc :=
    Schema.others_congr hdistinct hdistinct' hoff (by decide)
  have hkept := fun {α : Type} (reader : Reader α) (key : String) (hkey : key ∉ rewrittenKeys) =>
    hoff.read reader hkey
  rw [← hread]
  unfold ofDocument
  simp (disch := decide) only [hcheck, hothers, hkept, hfrom.frequency, hfrequency',
    hfrom.clockScale, hscale', hfrom.instructionBuffer, hbuffer']

theorem distinct_document (hdistinct : doc.Distinct) (hread : ofDocument doc = .ok c) :
    c.document.Distinct := by
  rw [document, (readFrom_of_ofDocument hread).options]
  exact Schema.distinct_append_others (by decide) hdistinct rfl

theorem read_document (hrange : c.instructionBuffer.InRange) :
    c.document.read InstructionBuffer.read "DIB" = .ok c.instructionBuffer := by
  have hget : c.document.get? "DIB" = some (.object c.instructionBuffer.document) := rfl
  rw [Document.read, hget]
  exact InstructionBuffer.read_of_heldIn hrange c.instructionBuffer.heldIn_document rfl

/-- What a core keeps of the document that it was read from. -/
structure Kept (c : Core) (doc : Document) : Prop where
  /-- The options are the values under the keys that are no fields. -/
  options : ∀ key : String, c.options[key]? = if key ∈ schema.keys then none else doc.get? key
  /-- Whatever is not rewritten is written as it was read. -/
  values : doc.AgreesOff rewrittenKeys c.document
  frequency : doc.float? "frequency" = some c.frequency
  clockScale : doc.float? "clock_scale" = some c.clockScale
  buffer : ∃ value, doc.get? "DIB" = some value ∧ c.instructionBuffer.HeldIn value
  /-- The instruction buffer can be given by key and by place alike. -/
  forms : ∀ value : Json, value.wellKeyed = true → c.instructionBuffer.HeldIn value →
    ofDocument (doc.set "DIB" value) = .ok c
  /-- No key is written twice. -/
  distinct : c.document.Distinct
  reread : ofDocument c.document = .ok c

theorem kept (hdistinct : doc.Distinct) (hread : ofDocument doc = .ok c) : c.Kept doc := by
  have hfrom := readFrom_of_ofDocument hread
  obtain ⟨value, hvalue, hbuffer⟩ := Document.read_eq_ok_iff.mp hfrom.instructionBuffer
  obtain ⟨hheld, hrange⟩ := InstructionBuffer.heldIn_of_read hbuffer
  have hvalues := agreesOff_document hdistinct hread
  have hdistinct' := distinct_document hdistinct hread
  refine ⟨fun key => ?_, hvalues, Document.float?_of_read hfrom.frequency,
    Document.float?_of_read hfrom.clockScale, ⟨value, hvalue, hheld⟩,
    fun value hwellKeyed hheld => ?_, hdistinct', ?_⟩
  · rw [hfrom.options, Schema.getElem?_others schema hdistinct]
  · have hoff : doc.AgreesOff rewrittenKeys (doc.set "DIB" value) := .set (by decide) doc value
    refine ofDocument_of_agreesOff hdistinct (Document.distinct_set hdistinct "DIB" value) hread
      hoff ?_ ?_ ?_
    · rw [Document.read, Document.get?_set, if_neg (by decide), ← hfrom.frequency, Document.read]
    · rw [Document.read, Document.get?_set, if_neg (by decide), ← hfrom.clockScale, Document.read]
    · rw [Document.read, Document.get?_set, if_pos rfl]
      exact InstructionBuffer.read_of_heldIn hrange hheld hwellKeyed
  · exact ofDocument_of_agreesOff hdistinct hdistinct' hread hvalues rfl rfl (read_document hrange)

end Core

/-! ## Both

What has been said of caches and cores is put together: a record keeps all that its document says,
and it can be written and read any number of times. -/

namespace Model

/-- **Typing loses nothing of a cache or a core**, where no key comes twice in its document. The
options of the record are what the document has under keys that are no fields, every integer, truth
value, string and list is written as it was read, and the record that is written is read back. An
instruction buffer is read by key or by place; of a mapping that gives it the sizes are kept. -/
theorem typing_keeps_records (hdistinct : doc.Distinct) :
    (∀ c : Cache, Cache.ofDocument doc = .ok c → c.Kept doc) ∧
      ∀ c : Core, Core.ofDocument doc = .ok c → c.Kept doc :=
  ⟨fun _ hread => Cache.kept hdistinct hread, fun _ hread => Core.kept hdistinct hread⟩

/-- A value under each of some keys. -/
def sameValue (value : Json) (keys : List String) : Document := keys.map fun key => (key, value)

/-- A cache with clocks in integers, no translator and an attribute of a module. -/
def tunedCache : Document :=
  [("degree", .ofNat 4), ("name", .string "LLC"), ("frequency", .ofNat 4000),
    ("clock_scale", .ofNat 1), ("lower_level", .string "DRAM")]
  ++ sameValue (.ofNat 8) ["fill_level", "sets", "ways", "rq_size", "wq_size", "pq_size",
    "mshr_size", "latency", "hit_latency", "fill_latency", "max_tag_check", "max_fill",
    "offset_bits"]
  ++ sameValue (.bool false) ["prefetch_as_load", "wq_check_full_addr", "virtual_prefetch",
    "needs_translate"]
  ++ sameValue (.ofStrings ["custom"]) ["prefetch_activate", "prefetcher", "replacement"]

/-- A core whose instruction buffer is a list, with a slot that is no field. -/
def listedCore : Document :=
  [("PTW", .string "walker"), ("frequency", .ofNat 4000), ("clock_scale", .ofNat 1),
    ("DIB", .array [.ofNat 16, .ofNat 32, .ofNat 8])]
  ++ sameValue (.ofNat 8) ["index", "ifetch_buffer_size", "decode_buffer_size",
    "dispatch_buffer_size", "rob_size", "lq_size", "sq_size", "fetch_width", "decode_width",
    "dispatch_width", "scheduler_size", "execute_width", "lq_width", "sq_width", "retire_width",
    "mispredict_penalty", "decode_latency", "dispatch_latency", "schedule_latency",
    "execute_latency"]
  ++ sameValue (.string "cpu0") ["name", "L1I", "L1D", "ITLB", "DTLB"]
  ++ sameValue (.ofStrings ["custom"]) ["branch_predictor", "btb"]

theorem typing_keeps_records_tuned : tunedCache.Distinct ∧ listedCore.Distinct ∧
    (∃ c, Cache.ofDocument tunedCache = .ok c ∧ c.Kept tunedCache) ∧
      ∃ c, Core.ofDocument listedCore = .ok c ∧ c.Kept listedCore := by
  have hcache : tunedCache.Distinct := by decide
  have hcore : listedCore.Distinct := by decide
  obtain ⟨cache, hcacheRead⟩ : ∃ c, Cache.ofDocument tunedCache = .ok c := by decide +kernel
  obtain ⟨core, hcoreRead⟩ : ∃ c, Core.ofDocument listedCore = .ok c := by decide +kernel
  exact ⟨hcache, hcore, ⟨cache, hcacheRead, (typing_keeps_records hcache).1 cache hcacheRead⟩,
    ⟨core, hcoreRead, (typing_keeps_records hcore).2 core hcoreRead⟩⟩

end Model

end MemoryHierarchy
