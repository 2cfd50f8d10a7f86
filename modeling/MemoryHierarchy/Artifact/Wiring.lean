import MemoryHierarchy.Artifact.Order
import MemoryHierarchy.Artifact.Text
import MemoryHierarchy.Module.Dispatch

/-!
# Wiring

The wiring declares every element with its arguments, lists the elements in arrays, and binds each
cache to the record that translates for it. It is built as data, `Wiring`, and written out by
`Wiring.lines`; what a declaration points at can be read off its arguments.
-/

namespace MemoryHierarchy

/-- An argument of a declaration. -/
inductive Argument where
  | text (s : String)
  | number (n : Nat)
  | float (x : Float)
  | truth (b : Bool)
  | quoted (s : String)
  /-- The address of a declared element. -/
  | pointer (name : String)
  /-- Numbers in braces. -/
  | group (numbers : List Nat)
  /-- The mask of access types. -/
  | accessTypes (types : List String)
  /-- The mask of modules of a category. -/
  | modules (kind : ModuleKind) (names : List String)

namespace Argument

/-- The text of an argument. Texts and names are taken over as they are, without any escape. -/
def render : Argument → String
  | text s => s
  | number n => toString n
  | float x => literalLayout.write x
  | truth b => toString b
  | quoted s => "\"" ++ s ++ "\""
  | pointer name => "&" ++ name
  | group numbers => "\x7b" ++ ", ".intercalate (numbers.map toString) ++ "\x7d"
  | accessTypes types => joinMask (types.map fun accessType => "(1 << " ++ accessType ++ ")")
  | modules kind names => joinMask (names.map kind.constant)

/-- The name that an argument points at. -/
def target? : Argument → Option String
  | pointer name => some name
  | _ => none

end Argument

/-- The declaration of an element. Its arguments are positional, so their order is part of what is
declared. -/
structure Declaration where
  className : String
  name : String
  arguments : List Argument

namespace Declaration

/-- The line of a declaration. -/
def line (d : Declaration) : String :=
  d.className ++ " " ++ d.name ++ "(" ++ ", ".intercalate (d.arguments.map Argument.render) ++ ");"

/-- The names that a declaration points at. Addresses within texts that are taken over do not count.
-/
def targets (d : Declaration) : List String := d.arguments.filterMap Argument.target?

end Declaration

/-- The declaration of the physical memory. -/
def PhysicalMemory.declaration (m : PhysicalMemory) : Declaration where
  className := "MEMORY_CONTROLLER"
  name := m.name
  arguments :=
    [.text "1.0", .number m.channels, .number m.ranks, .number m.bankGroups, .number m.banks,
      .number m.rows, .number m.columns, .number m.channelWidth, .number m.readQueue,
      .number m.writeQueue, .number m.prechargeTime, .number m.rowToColumnDelay,
      .number m.columnLatency, .number m.rowActiveTime, .number m.refreshPeriod,
      .number m.refreshesPerPeriod]

/-- The declaration of the virtual memory above a physical memory. It is the one element whose name
nobody can choose. -/
def VirtualMemory.declaration (v : VirtualMemory) (memory : String) : Declaration where
  className := "VirtualMemory"
  name := virtualMemoryName
  arguments :=
    [.number v.tablePageSize, .number v.levels, .number v.minorFaultPenalty,
      .number v.randomization, .pointer memory]

/-- The declaration of a cache above an element. The name stands there twice: as that of the object,
and in quotes for reports. -/
def Cache.declaration (c : Cache) (lower : String) : Declaration where
  className := "CACHE"
  name := c.name
  arguments :=
    [.quoted c.name, .float c.clockScale, .number c.fillLevel, .number c.sets, .number c.ways,
      .number c.writeQueue, .number c.readQueue, .number c.prefetchQueue, .number c.missRegisters,
      .number c.hitLatency, .number c.fillLatency, .number c.tagChecks, .number c.fills,
      .number c.offsetBits, .truth c.prefetchAsLoad, .truth c.checkFullAddress,
      .truth c.virtualPrefetch, .truth c.needsTranslate,
      .accessTypes c.prefetchActivate, .pointer lower,
      .modules .prefetcher c.prefetchers, .modules .replacement c.replacements]

/-- The declaration of a walker above an element. -/
def Walker.declaration (w : Walker) (lower : String) : Declaration where
  className := "PageTableWalker"
  name := w.name
  arguments :=
    [.quoted w.name, .number w.cpu, .float w.clockScale, .number w.fillLevel,
      .group [w.level5Sets, w.level5Ways], .group [w.level4Sets, w.level4Ways],
      .group [w.level3Sets, w.level3Ways], .group [w.level2Sets, w.level2Ways],
      .number w.readQueue, .number w.missRegisters, .number w.reads, .number w.writes,
      .pointer lower, .pointer virtualMemoryName]

/-- The declaration of a core. -/
def Core.declaration (c : Core) : Declaration where
  className := "O3_CPU"
  name := c.name
  arguments :=
    [.number c.index, .float c.clockScale,
      .group [c.instructionBuffer.window, c.instructionBuffer.sets, c.instructionBuffer.ways],
      .number c.fetchBuffer, .number c.decodeBuffer, .number c.dispatchBuffer,
      .number c.reorderBuffer, .number c.loadQueue, .number c.storeQueue, .number c.fetchWidth,
      .number c.decodeWidth, .number c.dispatchWidth, .number c.scheduler, .number c.executeWidth,
      .number c.loadWidth, .number c.storeWidth, .number c.retireWidth, .number c.mispredictPenalty,
      .number c.decodeLatency, .number c.dispatchLatency, .number c.scheduleLatency,
      .number c.executeLatency, .pointer c.itlb, .pointer c.dtlb, .pointer c.l1i, .pointer c.l1d,
      .modules .branch c.branchPredictors, .modules .btb c.targetBuffers]

/-- An array of pointers to elements of one class. -/
structure PointerArray where
  className : String
  name : String
  members : List String
deriving DecidableEq

/-- The line of an array. An empty array takes no inner braces. -/
def PointerArray.line (a : PointerArray) : String :=
  if a.members.isEmpty then "std::array<" ++ a.className ++ "*, 0> " ++ a.name ++ "\x7b\x7d;"
  else
    "std::array<" ++ a.className ++ "*, " ++ toString a.members.length ++ "> " ++ a.name
      ++ "\x7b\x7b" ++ ", ".intercalate (a.members.map ("&" ++ ·)) ++ "\x7d\x7d;"

/-- A cache with the record that translates for it. It is made after all elements have been
declared, since the two may come in either order. -/
structure Binding where
  cache : String
  target : String
deriving DecidableEq

/-- The line of a binding. -/
def Binding.line (b : Binding) : String :=
  "  " ++ b.cache ++ ".lower_translate = &" ++ b.target ++ ";"

/-- The elements of a model with everything that connects them. All of it is data, so that what is
declared and what is pointed at can be compared without reading a text. -/
structure Wiring where
  buildId : String
  declarations : List Declaration
  arrays : List PointerArray
  bindings : List Binding

namespace Element

/-- The declaration of an element in a model with a physical memory of the given name, for which
`DRAM` stands in links. -/
def declaration (memory : String) : Element → Declaration
  | physicalMemory m => m.declaration
  | virtualMemory v => v.declaration memory
  | cache c => c.declaration (lower c.lowerLevel)
  | walker w => w.declaration (lower w.lowerLevel)
  | core c => c.declaration
where
  /-- The element that a link names. -/
  lower (name : String) : String := if name = memorySentinel then memory else name

/-- The binding of an element. -/
def binding? : Element → Option Binding
  | cache c => c.lowerTranslate.map fun target => ⟨c.name, target⟩
  | _ => none

/-- The name of a core. -/
def coreName? : Element → Option String
  | core c => some c.name
  | _ => none

/-- The name of a cache. -/
def cacheName? : Element → Option String
  | cache c => some c.name
  | _ => none

/-- The name of a walker. -/
def walkerName? : Element → Option String
  | walker w => some w.name
  | _ => none

end Element

namespace Wiring

/-- The wiring of a model whose elements are declared in the given order. -/
def ofOrder (m : Model) (order : List Element) : Wiring :=
  let cores := order.filterMap Element.coreName?
  let caches := order.filterMap Element.cacheName?
  let walkers := order.filterMap Element.walkerName?
  { buildId := m.environment.buildId
    declarations := order.map (Element.declaration m.physicalMemory.name)
    arrays :=
      [⟨"O3_CPU", "ooo_cpu", cores⟩, ⟨"CACHE", "caches", caches⟩,
        ⟨"PageTableWalker", "ptws", walkers⟩,
        ⟨"champsim::operable", "operables",
          cores ++ caches ++ walkers ++ [m.physicalMemory.name]⟩]
    bindings := order.filterMap Element.binding? }

/-- The namespace of the wiring. -/
def space : String := "topogen::generated"

/-- The lines of the wiring. -/
def lines (w : Wiring) : List String :=
  [generatedHeader, "// Configuration: " ++ w.buildId, "", "#include <array>", "",
    "#include \"cache.h\"", "#include \"dram_controller.h\"", "#include \"ooo_cpu.h\"",
    "#include \"ptw.h\"", "#include \"vmem.h\"", "", "namespace " ++ space, "\x7b"]
  ++ w.declarations.map Declaration.line
  ++ [""]
  ++ w.arrays.map PointerArray.line
  ++ ["", "void bind_translation()", "\x7b"]
  ++ w.bindings.map Binding.line
  ++ ["\x7d", "\x7d  // namespace " ++ space]

end Wiring

end MemoryHierarchy
