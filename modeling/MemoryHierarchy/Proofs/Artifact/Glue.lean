import MemoryHierarchy.Proofs.Artifact.BuildFragment

/-!
# Which declarations of the glue are well formed

For each module of a configuration the glue declares a constant, and a selector if the module is
made of free functions. The constant goes by the name of the module, and the selector asks for it by
that name; both are well formed iff the name is an identifier (`Glue.isConstantLine_iff`,
`Glue.isSelectorFront_iff`). The selector has a name of its own, in which that of the module stands
behind the head of its category and does no harm.
-/

namespace MemoryHierarchy

theorem ModuleCatalog.get_mem_sets (catalog : ModuleCatalog) (kind : ModuleKind) :
    catalog.get kind ∈ catalog.sets :=
  List.mem_map_of_mem kind.mem_all

namespace Glue

/-- The declaration of a constant, the name of which is an identifier. The bit is a number, which
cannot spoil the line, so the name is all that is asked about. -/
def IsConstantLine (line : String) : Prop :=
  ∃ (name : String) (bit : Nat), IsIdentifier name ∧
    line = "inline constexpr unsigned long long " ++ name ++ " = 1ull << " ++ toString bit ++ ";"

/-- The front of a selector, which has an identifier for its name and tests its mask against a
constant. A compiler reads these lines before any call of a module. -/
def IsSelectorFront (lines : List String) : Prop :=
  ∃ name constant : String, IsIdentifier name ∧ IsQualified constant ∧
    lines =
      ["template <unsigned long long Mask>",
        "struct " ++ name,
        "\x7b",
        "  static constexpr bool enabled = (Mask & " ++ constant ++ ") != 0;"]

/-! ## Names in declarations

The name of a module stands in the glue in three places: as the name of a constant, behind the
namespace of its category where the constant is used, and inside the name of a selector. In each
place it can be read off the line again, so each line is well formed just in case the name is an
identifier, or the part of one. -/

/-- The word that a constant has for its name can be read off its line. -/
theorem isConstantLine_iff {c : MaskConstant} (hname : IsWord c.name) :
    IsConstantLine c.line ↔ IsIdentifier c.name := by
  unfold IsConstantLine MaskConstant.line
  refine ⟨?_, fun h => ⟨c.name, c.bit, h, rfl⟩⟩
  rintro ⟨name, bit, h, hline⟩
  have hchars := congrArg String.toList hline
  simp only [String.toList_append, List.append_assoc, List.append_cancel_left_eq] at hchars
  -- behind the name there is a blank on both sides
  have hstops : ∀ rest : List Char, ∀ c ∈ (" = 1ull << ".toList ++ rest).head?, ¬IsWordChar c := by
    rintro rest _ ⟨⟩
    decide
  obtain ⟨heq, _⟩ := hname.append_inj h.word (hstops _) (hstops _) hchars
  exact heq ▸ h

theorem isQualified_constant_iff (kind : ModuleKind) {module : String} (hmodule : IsWord module) :
    IsQualified (kind.constant module) ↔ IsIdentifier module := by
  have hcategory : IsIdentifier kind.category := by
    cases kind <;> decide
  have hspaces : IsIdentifier "topogen" ∧ IsIdentifier "modules" := by decide
  have hparts : kind.constant module =
      "topogen" ++ "::" ++ ("modules" ++ "::" ++ (kind.category ++ "::" ++ module)) := by
    unfold ModuleKind.constant ModuleKind.constantSpace
    simp [← String.toList_inj]
  rw [hparts, isQualified_inside_iff hspaces.1.word, isQualified_inside_iff hspaces.2.word,
    isQualified_inside_iff hcategory.word, isQualified_iff_of_isWord hmodule]
  simp [hspaces, hcategory]

theorem isSelectorFront_iff {kind : ModuleKind} {m : ModuleInfo} (hname : IsWord m.name) :
    IsSelectorFront ((Dispatch.selectorLines kind m).take 4) ↔ IsIdentifier m.name := by
  have hfront : (Dispatch.selectorLines kind m).take 4 =
      ["template <unsigned long long Mask>",
        "struct " ++ Module.symbol kind m.name "select",
        "\x7b",
        "  static constexpr bool enabled = (Mask & " ++ kind.constant m.name ++ ") != 0;"] := by
    simp [Dispatch.selectorLines, Module.symbol, ← String.toList_inj]
  rw [hfront, ← isQualified_constant_iff kind hname]
  constructor
  · rintro ⟨name, constant, _, hconstant, hlines⟩
    simp only [List.cons.injEq] at hlines
    -- the constant is read off the last of the four lines
    obtain ⟨_, _, _, hline, _⟩ := hlines
    have heq : kind.constant m.name = constant := by
      simpa [← String.toList_inj] using hline
    exact heq ▸ hconstant
  · intro hconstant
    exact ⟨_, _, Module.isIdentifier_symbol kind hname (by decide), hconstant, rfl⟩

/-! ## What the glue holds

All three are in the glue of a configuration for every module that it uses, the selectors for
modules of free functions only. -/

variable {catalog : ModuleCatalog} {kind : ModuleKind} {m : ModuleInfo}

theorem constantLine_mem_lines (hm : m ∈ (catalog.get kind).modules) :
    MaskConstant.line ⟨m.name, m.bit⟩ ∈ lines catalog := by
  have hconstant : MaskConstant.line ⟨m.name, m.bit⟩ ∈
      catalog.sets.flatMap fun set => "" :: Dispatch.constantLines set := by
    refine List.mem_flatMap.mpr ⟨_, catalog.get_mem_sets kind, List.mem_cons_of_mem _ ?_⟩
    refine List.mem_append_left _ (List.mem_append_right _ ?_)
    exact List.mem_map_of_mem (List.mem_map_of_mem hm)
  simp [lines, hconstant]

theorem selectorLines_infix_lines (hm : m ∈ (catalog.get kind).modules)
    (hlegacy : m.data.legacy = true) :
    Dispatch.selectorLines (catalog.get kind).kind m <:+: lines catalog := by
  have hmem : m ∈ (catalog.get kind).legacy := List.mem_filter.mpr ⟨hm, hlegacy⟩
  have hset : "" :: Dispatch.selectorLines (catalog.get kind).kind m <:+:
      selectorLines (catalog.get kind) := List.infix_of_mem_flatten (List.mem_map_of_mem hmem)
  have hsets : selectorLines (catalog.get kind) <:+: catalog.sets.flatMap selectorLines :=
    List.infix_of_mem_flatten (List.mem_map_of_mem (catalog.get_mem_sets kind))
  have hlines : catalog.sets.flatMap selectorLines <:+: lines catalog := by
    unfold lines
    rw [List.append_assoc _ _ ["#endif"], List.append_assoc _ (catalog.sets.flatMap selectorLines)]
    exact List.infix_append' _ _ _
  exact (List.suffix_cons _ _).isInfix.trans (hset.trans (hsets.trans hlines))

end Glue

/-- **What the glue holds for a module is well formed** iff the first directory below the module
root does not begin with a digit. Nothing else can be wrong with the name of the module. -/
theorem wellFormed_glue_iff {directory root : Path} {first : String} {rest : List String}
    (hnames : directory.namesBehind root = first :: rest) :
    Module.nameOf directory root ≠ "" ∧ IsWord (Module.nameOf directory root) ∧
      (IsIdentifier (Module.nameOf directory root) ↔ ¬BeginsWithDigit first) ∧
    ∀ (n : NormalizedConfiguration) (fs : FileSystem) (options : Options) (kind : ModuleKind),
      let catalog := (n.resolve options (.ofOptions fs options n.root)).configuration.modules
      let set := catalog.get kind
      options.moduleRoot = root → ∀ m ∈ set.modules, m.data.path = directory →
        let constant := MaskConstant.line ⟨m.name, m.bit⟩
        let selector := Dispatch.selectorLines set.kind m
        constant ∈ Glue.lines catalog ∧
          (m.data.legacy = true → selector <:+: Glue.lines catalog) ∧
          (Glue.IsConstantLine constant ↔ ¬BeginsWithDigit first) ∧
          (Glue.IsSelectorFront (selector.take 4) ↔ ¬BeginsWithDigit first) := by
  have hidentifier : IsIdentifier (Module.nameOf directory root) ↔ ¬BeginsWithDigit first := by
    rw [Module.isIdentifier_nameOf_iff, hnames]
    simp
  have hword := Module.isWord_nameOf directory root
  refine ⟨?_, hword, hidentifier, ?_⟩
  · rw [ne_eq, Module.nameOf_eq_blank_iff, hnames]
    exact List.cons_ne_nil _ _
  -- both kinds of lines are well formed where the name is an identifier, and a name is a word
  -- anyway
  · intro n fs options kind catalog set hroot m hm hpath constant selector
    have hname : m.name = Module.nameOf directory root := by
      rw [← hpath, ← hroot]
      exact ((n.modules_resolve_ofOptions fs options kind).2 m hm).name
    rw [← hname] at hword hidentifier
    exact ⟨Glue.constantLine_mem_lines hm, Glue.selectorLines_infix_lines hm,
      (Glue.isConstantLine_iff hword).trans hidentifier,
      (Glue.isSelectorFront_iff hword).trans hidentifier⟩

/-- A core that asks for two predictors, which are searched in the working directory first. A module
that lies in the working directory is named after its last segment alone, here one with a digit in
front. -/
def numberedPredictors : List Document :=
  [[("branch_predictor", .ofStrings ["next-line.v2", "2bit"]), ("branch_dirs", .ofStrings ["."])]]

/-- A directory for each of them, both made of free functions. -/
def predictorFunctions : FileSystem :=
  .around (.directory
    [("2bit", .directory [("__legacy__", .file "")]),
      ("branch", .directory [("next-line.v2", .directory [("__legacy__", .file "")])])])

/-- The modules that a configuration finds there. -/
def predictorCatalog (n : NormalizedConfiguration) : ModuleCatalog :=
  (n.resolve {} (.ofOptions predictorFunctions {} n.root)).configuration.modules

open NormalizedConfiguration in
theorem modules_numberedPredictors :
    ∃ n, ofDocuments numberedPredictors = .ok n ∧
      ∀ path ∈ [(⟨"./branch/next-line.v2"⟩ : Path), ⟨"./2bit"⟩],
        ∃ m ∈ (predictorCatalog n).branch.modules, m.data.path = path ∧ m.data.legacy = true := by
  have hcomputed : ∃ n, ofDocuments numberedPredictors = .ok n ∧
      (predictorCatalog n).branch.modules.map (fun m => (m.data.path, m.data.legacy)) =
        [(⟨"./branch/next-line.v2"⟩, true), (⟨"./2bit"⟩, true)] := by
    simp -zeta only [predictorCatalog, resolve_eq_sorting]
    decide +kernel
  obtain ⟨n, hread, hmodules⟩ := hcomputed
  refine ⟨n, hread, fun path hpath => ?_⟩
  have hmem : (path, true) ∈
      (predictorCatalog n).branch.modules.map fun m => (m.data.path, m.data.legacy) := by
    rw [hmodules]
    simpa using hpath
  obtain ⟨m, hm, heq⟩ := List.mem_map.mp hmem
  obtain ⟨hpath, hlegacy⟩ := Prod.mk.inj heq
  exact ⟨m, hm, hpath, hlegacy⟩

open NormalizedConfiguration in
/-- The first predictor is declared as it should be. -/
theorem wellFormed_glue_numberedPredictors :
    ∃ n, ofDocuments numberedPredictors = .ok n ∧
      IsIdentifier (Module.nameOf ⟨"./branch/next-line.v2"⟩ ⟨"."⟩) ∧
      ∃ m ∈ (predictorCatalog n).branch.modules, m.data.path = ⟨"./branch/next-line.v2"⟩ ∧
        let constant := MaskConstant.line ⟨m.name, m.bit⟩
        let selector := Dispatch.selectorLines (predictorCatalog n).branch.kind m
        constant ∈ Glue.lines (predictorCatalog n) ∧ Glue.IsConstantLine constant ∧
          selector <:+: Glue.lines (predictorCatalog n) ∧
          Glue.IsSelectorFront (selector.take 4) := by
  have hnames : Path.namesBehind ⟨"./branch/next-line.v2"⟩ ⟨"."⟩ = ["branch", "next-line.v2"] := by
    decide
  have hletter : ¬BeginsWithDigit "branch" := by decide
  obtain ⟨n, hread, hmodules⟩ := modules_numberedPredictors
  obtain ⟨m, hm, hpath, hlegacy⟩ := hmodules ⟨"./branch/next-line.v2"⟩ (by decide)
  obtain ⟨_, _, hname, hglue⟩ := wellFormed_glue_iff hnames
  obtain ⟨hconstant, hselector, hline, hfront⟩ :=
    hglue n predictorFunctions {} .branch rfl m hm hpath
  exact ⟨n, hread, hname.mpr hletter, m, hm, hpath, hconstant, hline.mpr hletter,
    hselector hlegacy, hfront.mpr hletter⟩

open NormalizedConfiguration in
/-- The second one is declared under a name that is no identifier. -/
theorem not_wellFormed_glue_numberedPredictors :
    ∃ n, ofDocuments numberedPredictors = .ok n ∧
      Path.namesBehind ⟨"./2bit"⟩ ⟨"."⟩ = ["2bit"] ∧
      ¬IsIdentifier (Module.nameOf ⟨"./2bit"⟩ ⟨"."⟩) ∧
      ∃ m ∈ (predictorCatalog n).branch.modules, m.data.path = ⟨"./2bit"⟩ ∧
        ¬Glue.IsConstantLine (MaskConstant.line ⟨m.name, m.bit⟩) ∧
        ¬Glue.IsSelectorFront
          ((Dispatch.selectorLines (predictorCatalog n).branch.kind m).take 4) := by
  have hnames : Path.namesBehind ⟨"./2bit"⟩ ⟨"."⟩ = ["2bit"] := by decide
  have hdigit : ¬IsIdentifier (Module.nameOf ⟨"./2bit"⟩ ⟨"."⟩) := by
    rw [Module.isIdentifier_nameOf_iff, hnames]
    rintro ⟨_, _, ⟨⟩, hhead⟩
    exact hhead (by decide)
  obtain ⟨n, hread, hmodules⟩ := modules_numberedPredictors
  obtain ⟨m, hm, hpath, _⟩ := hmodules ⟨"./2bit"⟩ (by decide)
  have hname : m.name = Module.nameOf ⟨"./2bit"⟩ ⟨"."⟩ := by
    rw [← hpath]
    exact ((n.modules_resolve_ofOptions predictorFunctions {} .branch).2 m hm).name
  -- the name is a word all the same, so the lines fail for its first character only
  have hword : IsWord m.name := hname ▸ Module.isWord_nameOf _ _
  refine ⟨n, hread, hnames, hdigit, m, hm, hpath, ?_, ?_⟩
  · rw [Glue.isConstantLine_iff hword, hname]
    exact hdigit
  · rw [Glue.isSelectorFront_iff hword, hname]
    exact hdigit

end MemoryHierarchy
