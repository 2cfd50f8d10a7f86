import MemoryHierarchy.Module.Set
import MemoryHierarchy.Proofs.Record

/-!
# Symbols of free functions do not collide

The symbol of a free function joins the head of its category, the name of its module and the name of
the entry point with underscores, and each of the three may hold underscores itself. It can be taken
apart all the same: no head is the beginning of another one, and within a category no entry point's
name ends like another one's behind an underscore (`Module.symbol_eq_iff`). So the functions of any
number of modules, of all categories, have symbols of their own (`Module.symbols_apart`).
-/

namespace MemoryHierarchy.Module

/-- No head of symbols is the beginning of another one. -/
theorem kind_eq_of_heads {kind kind' : ModuleKind}
    (hheads : (kind.symbolHead ++ "_").toList <+: (kind'.symbolHead ++ "_").toList) :
    kind = kind' := by
  revert hheads
  cases kind <;> cases kind' <;> decide

/-- No entry point of a category has a name that ends like that of another one. -/
theorem eq_of_name_suffix {kind : ModuleKind} {e e' : EntryPoint} (he : e ∈ EntryPoint.ofKind kind)
    (he' : e' ∈ EntryPoint.ofKind kind)
    (hsuffix : ("_" ++ e.name).toList <:+ ("_" ++ e'.name).toList) : e = e' := by
  have hall : ∀ kind, ∀ e ∈ EntryPoint.ofKind kind, ∀ e' ∈ EntryPoint.ofKind kind,
      ("_" ++ e.name).toList <:+ ("_" ++ e'.name).toList → e = e' := by
    intro kind
    cases kind <;> decide
  exact hall kind e he e' he' hsuffix

/-- **A symbol tells its category, its module and its entry point.** It begins with the head of the
category, which no other head begins with, and ends with the function, which no other function of
the category ends with; what is left in between is the module. -/
theorem symbol_eq_iff {kind kind' : ModuleKind} {module module' : String} {e e' : EntryPoint}
    (he : e ∈ EntryPoint.ofKind kind) (he' : e' ∈ EntryPoint.ofKind kind') :
    symbol kind module e.name = symbol kind' module' e'.name ↔
      kind = kind' ∧ module = module' ∧ e = e' := by
  constructor
  · intro hsymbol
    have hparts : ∀ (kind : ModuleKind) (module function : String),
        (symbol kind module function).toList =
          (kind.symbolHead ++ "_").toList ++ (module.toList ++ ("_" ++ function).toList) := by
      intro kind module function
      simp [symbol]
    have hchars := congrArg String.toList hsymbol
    rw [hparts, hparts] at hchars
    -- of two beginnings of one text the shorter one begins the longer one
    obtain rfl : kind = kind' := by
      have hleft := List.prefix_append (kind.symbolHead ++ "_").toList
        (module.toList ++ ("_" ++ e.name).toList)
      rw [hchars] at hleft
      rcases List.prefix_or_prefix_of_prefix hleft (List.prefix_append _ _) with h | h
      · exact kind_eq_of_heads h
      · exact (kind_eq_of_heads h).symm
    have hrest := List.append_cancel_left hchars
    obtain rfl : e = e' := by
      have hright := List.suffix_append module.toList ("_" ++ e.name).toList
      rw [hrest] at hright
      rcases List.suffix_or_suffix_of_suffix hright (List.suffix_append _ _) with h | h
      · exact eq_of_name_suffix he he' h
      · exact (eq_of_name_suffix he' he h).symm
    exact ⟨rfl, String.ext (List.append_cancel_right hrest), rfl⟩
  · rintro ⟨rfl, rfl, rfl⟩
    rfl

theorem getElem?_symbols_eq_some_iff {kind : ModuleKind} {module function found : String} :
    (symbols kind module)[function]? = some found ↔
      ∃ e ∈ EntryPoint.ofKind kind, e.name = function ∧ symbol kind module function = found := by
  -- the last insertion under a name counts, and all of them put in the same symbol
  have hfold : ∀ (es : List EntryPoint) (m : NameMap String),
      (es.foldl (fun m e => m.insert e.name (symbol kind module e.name)) m)[function]? =
        some found ↔
          (∃ e ∈ es, e.name = function ∧ symbol kind module function = found) ∨
            ((∀ e ∈ es, e.name ≠ function) ∧ m[function]? = some found) := by
    intro es
    induction es with
    | nil => simp
    | cons e es ih =>
      intro m
      rw [List.foldl_cons, ih, Std.ExtTreeMap.getElem?_insert]
      simp only [Std.compare_eq_iff_eq]
      by_cases hname : e.name = function
      · subst hname
        by_cases hlater : ∃ e' ∈ es, e'.name = e.name <;> grind
      · grind
  rw [symbols, hfold]
  simp

/-- The functions of one module have symbols of their own. -/
theorem nodup_values_symbols (kind : ModuleKind) (module : String) :
    (symbols kind module).values.Nodup := by
  rw [NameMap.values_eq]
  refine (NameMap.nodup_toList _).map_on ?_
  rintro ⟨function, found⟩ hmem ⟨function', found'⟩ hmem' rfl
  rw [Std.ExtTreeMap.mem_toList_iff_getElem?_eq_some, getElem?_symbols_eq_some_iff] at hmem hmem'
  obtain ⟨e, he, rfl, hsymbol⟩ := hmem
  obtain ⟨e', he', rfl, hsymbol'⟩ := hmem'
  rw [((symbol_eq_iff he he').mp (hsymbol.trans hsymbol'.symm)).2.2]

/-- Two modules have a symbol in common only where they have the same category and name. -/
theorem disjoint_values_symbols_iff {kind kind' : ModuleKind} {module module' : String} :
    (symbols kind module).values.Disjoint (symbols kind' module').values ↔
      (kind, module) ≠ (kind', module') := by
  constructor
  · rintro hdisjoint ⟨⟩
    obtain ⟨e, he⟩ : ∃ e, e ∈ EntryPoint.ofKind kind := by
      cases kind <;> exact ⟨_, List.mem_cons_self⟩
    have hmem : symbol kind module e.name ∈ (symbols kind module).values :=
      NameMap.mem_values_iff.mpr ⟨e.name, getElem?_symbols_eq_some_iff.mpr ⟨e, he, rfl, rfl⟩⟩
    -- a module has some symbol, which it has in common with itself
    exact hdisjoint hmem hmem
  · intro hne found hfound hfound'
    obtain ⟨_, hget⟩ := NameMap.mem_values_iff.mp hfound
    obtain ⟨_, hget'⟩ := NameMap.mem_values_iff.mp hfound'
    obtain ⟨e, he, rfl, hsymbol⟩ := getElem?_symbols_eq_some_iff.mp hget
    obtain ⟨e', he', rfl, hsymbol'⟩ := getElem?_symbols_eq_some_iff.mp hget'
    -- a symbol that both have gives away the category and the name
    obtain ⟨hkind, hmodule, _⟩ := (symbol_eq_iff he he').mp (hsymbol.trans hsymbol'.symm)
    exact hne (by rw [hkind, hmodule])

/-- **Symbols that are not given by a manifest never collide.** Two of them are the same only where
the category, the module and the entry point are; so the functions of any number of modules of any
categories can be linked together, just in case no module is among them twice. -/
theorem symbols_apart :
    (∀ (kind kind' : ModuleKind) (module module' : String),
      ∀ e ∈ EntryPoint.ofKind kind, ∀ e' ∈ EntryPoint.ofKind kind',
        (symbol kind module e.name = symbol kind' module' e'.name ↔
          kind = kind' ∧ module = module' ∧ e.name = e'.name)) ∧
      ∀ modules : List (ModuleKind × String),
        (modules.flatMap fun m => (symbols m.1 m.2).values).Nodup ↔ modules.Nodup := by
  constructor
  · intro kind kind' module module' e he e' he'
    rw [symbol_eq_iff he he']
    refine and_congr_right fun hkind => and_congr_right fun _ => ⟨fun heq => heq ▸ rfl, ?_⟩
    intro hname
    subst hkind
    exact eq_of_name_suffix he he' (hname ▸ List.suffix_rfl)
  · intro modules
    -- no two modules share a symbol, and no module has one twice
    rw [List.nodup_flatMap, List.nodup_iff_pairwise_ne]
    constructor
    · rintro ⟨-, happart⟩
      exact happart.imp disjoint_values_symbols_iff.mp
    · intro happart
      exact ⟨fun m _ => nodup_values_symbols m.1 m.2, happart.imp disjoint_values_symbols_iff.mpr⟩

/-- Modules whose names hold what symbols end with, in two categories. No two of their symbols are
the same for all that. -/
def underscoredModules : List (ModuleKind × String) :=
  [(.branch, "m"), (.branch, "m_predict_branch"), (.btb, "m"), (.btb, "m_btb_prediction")]

theorem symbols_apart_underscoredModules :
    let e : EntryPoint := EntryPoint.branch[2]
    e ∈ EntryPoint.ofKind .branch ∧
      symbol .branch "m" e.name ≠ symbol .branch "m_predict_branch" e.name ∧
      (underscoredModules.flatMap fun m => (symbols m.1 m.2).values).Nodup := by
  intro e
  have he : e ∈ EntryPoint.ofKind .branch := by decide
  obtain ⟨hsymbol, hlinked⟩ := symbols_apart
  refine ⟨he, ?_, (hlinked underscoredModules).mpr (by decide)⟩
  rw [ne_eq, hsymbol _ _ _ _ e he e he]
  decide

end MemoryHierarchy.Module
