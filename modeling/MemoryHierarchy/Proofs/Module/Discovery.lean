import MemoryHierarchy.Compiler
import MemoryHierarchy.Proofs.Module.Set

/-!
# Modules that nobody asked for change no hardware

Under `compileAll` a registry also gives the modules that no record asks for. They are found after
all requests have been looked up, so they go behind the others and take the bits that are left, and
they are inserted under no name, so no record means one of them: the set only grows,
`ModuleSet.Extends`.

Slots are rewritten by what names mean, and nothing else of a configuration is made of its modules.
Checks, types and the order of declarations do not look at them either, so two runs that differ in
`compileAll` fail alike, and where they succeed they write the same wiring and the same constants.
-/

namespace MemoryHierarchy

namespace ModuleSet

/-! ## Sets that grow

Discovery inserts under no name. So aliases stay as they are, and modules that nobody asked for are
numbered behind the others. -/

/-- A set has more modules than another one, behind those of the other one, and the same names for
them. The bits of the modules of the smaller set are the same in both. -/
structure Extends (s t : ModuleSet) : Prop where
  kind_eq : t.kind = s.kind
  aliases_eq : t.aliases = s.aliases
  modules : s.modules <+: t.modules

theorem Extends.refl (s : ModuleSet) : Extends s s := ⟨rfl, rfl, List.prefix_rfl⟩

theorem Extends.trans {s t u : ModuleSet} (h : Extends s t) (h' : Extends t u) : Extends s u where
  kind_eq := h'.kind_eq.trans h.kind_eq
  aliases_eq := h'.aliases_eq.trans h.aliases_eq
  modules := h.modules.trans h'.modules

/-- A module that is inserted under no name goes behind the others, if it is new. -/
theorem extends_insert_none (s : ModuleSet) (data : ModuleData) :
    Extends s (s.insert none data) where
  kind_eq := rfl
  aliases_eq := rfl
  modules := s.modules_prefix_insert none data

/-- Names mean the same modules in a set that has grown. -/
theorem Extends.withModuleNames {s t : ModuleSet} (h : Extends s t) :
    Hierarchy.withModuleNames t = Hierarchy.withModuleNames s := by
  have hresolve : t.resolve? = s.resolve? := by
    funext name
    rw [resolve?, resolve?, h.aliases_eq]
  funext record
  unfold Hierarchy.withModuleNames enabledFor
  rw [h.kind_eq, hresolve]

end ModuleSet

namespace ModuleResolution

theorem extends_discoveries (found : List FoundModule) (r : ModuleResolution) :
    r.set.Extends (found.foldl discover r).set := by
  induction found generalizing r with
  | nil => exact .refl r.set
  | cons first found ih =>
    have hfirst : r.set.Extends (r.discover first).set := r.set.extends_insert_none first.data
    exact hfirst.trans (ih (r.discover first))

/-- **Looking for all modules only adds to those that are asked for.** Requests are answered first,
and what is discovered afterwards goes behind, without an alias. -/
theorem extends_resolve (kind : ModuleKind) (lookup : ModuleLookup) (slot : String)
    (records : List Document) :
    (resolve kind lookup false slot records).set.Extends
      (resolve kind lookup true slot records).set :=
  extends_discoveries lookup.all _

end ModuleResolution

/-! ## Configurations

Names in slots are read off the aliases, so the records are the same; of the whole configuration
only the sets of modules are larger. -/

namespace NormalizedConfiguration

/-- **Under `compileAll` a resolved configuration differs in its modules only.** Records are
rewritten by aliases, and discovery brings none. -/
theorem applyDefaults_compileAll (n : NormalizedConfiguration)
    (lookup : ModuleKind → ModuleLookup) :
    ∃ catalog : ModuleCatalog,
      n.applyDefaults ⟨lookup, true⟩ =
        { n.applyDefaults ⟨lookup, false⟩ with modules := catalog } ∧
      ∀ kind, ((n.applyDefaults ⟨lookup, false⟩).modules.get kind).Extends (catalog.get kind) := by
  -- the sets of both runs; names mean the same modules in the one and in the other
  let found (compileAll : Bool) (kind : ModuleKind) : ModuleSet :=
    (n.completedHierarchy.resolveModules ⟨lookup, compileAll⟩ kind).set
  have hfound : ∀ kind, (found false kind).Extends (found true kind) := fun kind =>
    ModuleResolution.extends_resolve kind (lookup kind) kind.slot _
  refine ⟨⟨found true .branch, found true .btb, found true .prefetcher, found true .replacement⟩,
    ?_, fun kind => ?_⟩
  · have hslots : n.completedHierarchy.withModules
          ⟨found true .branch, found true .btb, found true .prefetcher, found true .replacement⟩ =
        n.completedHierarchy.withModules
          ⟨found false .branch, found false .btb, found false .prefetcher,
            found false .replacement⟩ := by
      simp only [Hierarchy.withModules, (hfound _).withModuleNames]
    -- field by field, of which only the slots of records have to do with modules
    unfold applyDefaults resolve
    dsimp only
    rw [ResolvedConfiguration.mk.injEq]
    exact ⟨rfl, congrArg Hierarchy.cores hslots, congrArg Hierarchy.caches hslots,
      congrArg Hierarchy.walkers hslots, rfl, rfl, rfl, rfl, rfl⟩
  · cases kind with
    | branch => exact hfound .branch
    | btb => exact hfound .btb
    | prefetcher => exact hfound .prefetcher
    | replacement => exact hfound .replacement

end NormalizedConfiguration

/-! ## Texts

The sets of modules are not looked at when records are typed, ordered and declared. Of what is
emitted they appear in the glue and in the fragments for the build only. -/

/-- A model keeps the modules of its configuration and is made of them in no other way. -/
theorem Model.ofResolved_withModules (r : ResolvedConfiguration) (catalog : ModuleCatalog) :
    ofResolved { r with modules := catalog } =
      (fun m : Model => { m with modules := catalog }) <$> ofResolved r := by
  have hsystem : { r with modules := catalog }.hierarchy.system = r.hierarchy.system := rfl
  unfold ofResolved
  rw [hsystem]
  cases firstCycle? r.hierarchy.system with
  | some found => rfl
  | none => simp only [map_bind, map_pure]

/-- The texts that describe the hardware. -/
def Artifacts.hardware (a : Artifacts) : String × String := (a.wiring, a.constants)

theorem Artifacts.hardware_ofModel (m : Model) (catalog : ModuleCatalog) :
    (ofModel { m with modules := catalog }).map hardware = (ofModel m).map hardware := by
  have horder : declarationOrder { m with modules := catalog } = declarationOrder m := rfl
  unfold ofModel
  rw [horder]
  cases declarationOrder m with
  | error e => rfl
  | ok order => rfl

/-- **Modules decide neither whether something is emitted nor what hardware it describes.** The
wiring and the constants are written from the records, in which the names of modules have been
replaced already. -/
theorem ResolvedConfiguration.hardware_emit (r : ResolvedConfiguration) (catalog : ModuleCatalog) :
    { r with modules := catalog }.emit.map Artifacts.hardware = r.emit.map Artifacts.hardware := by
  have hdiagnostics : { r with modules := catalog }.diagnostics = r.diagnostics := rfl
  unfold emit
  rw [hdiagnostics, Model.ofResolved_withModules]
  dsimp only
  split
  · rfl
  · cases Model.ofResolved r with
    | error e => rfl
    | ok m => exact Artifacts.hardware_ofModel m catalog

/-- **Compiling all modules changes no hardware.** The modules that are asked for come first, with
the same bits, and either both runs fail with one error or both write the same wiring and the same
constants. -/
theorem hardware_compileAll (n : NormalizedConfiguration) (lookup : ModuleKind → ModuleLookup) :
    let asked := n.applyDefaults ⟨lookup, false⟩
    let all := n.applyDefaults ⟨lookup, true⟩
    all.root = asked.root ∧ all.cores = asked.cores ∧ all.caches = asked.caches ∧
      all.walkers = asked.walkers ∧ all.physicalMemory = asked.physicalMemory ∧
      all.virtualMemory = asked.virtualMemory ∧ all.constants = asked.constants ∧
      all.environment = asked.environment ∧
      (∀ kind, (asked.modules.get kind).modules <+: (all.modules.get kind).modules) ∧
      all.emit.map Artifacts.hardware = asked.emit.map Artifacts.hardware := by
  intro asked all
  obtain ⟨catalog, hall, hextends⟩ := n.applyDefaults_compileAll lookup
  change all = { asked with modules := catalog } at hall
  change ∀ kind, (asked.modules.get kind).Extends (catalog.get kind) at hextends
  -- how the two were computed does not matter any more
  clear_value asked all
  subst hall
  exact ⟨rfl, rfl, rfl, rfl, rfl, rfl, rfl, rfl, fun kind => (hextends kind).modules,
    asked.hardware_emit catalog⟩

end MemoryHierarchy
