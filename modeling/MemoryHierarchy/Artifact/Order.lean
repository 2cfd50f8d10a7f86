import MemoryHierarchy.Model.Basic

/-!
# The order of declarations

The elements of a model are declared so that each comes after those it points at: the memories,
then caches and walkers from the deepest level up, then the cores. `declarationOrder` checks the
order as it goes, and fails at the first element that points at one that is not declared yet.
-/

namespace MemoryHierarchy

/-- Something that the wiring declares. Elements of all kinds are declared in one list, and each may
point at those before it. -/
inductive Element where
  | physicalMemory (memory : PhysicalMemory)
  | virtualMemory (memory : VirtualMemory)
  | cache (cache : Cache)
  | walker (walker : Walker)
  | core (core : Core)

namespace Element

/-- The name under which an element is declared. -/
def name : Element → String
  | physicalMemory memory => memory.name
  | virtualMemory _ => virtualMemoryName
  | cache c => c.name
  | walker w => w.name
  | core c => c.name

/-- The depth of a cache or walker. Other elements have no place in this order; nothing asks for
theirs. -/
def fillLevel : Element → Nat
  | cache c => c.fillLevel
  | walker w => w.fillLevel
  | _ => 0

/-- The names that the declaration of an element points at, as they stand in its record. The
sentinel of the memory is among them, which has no declaration. -/
def references : Element → List String
  | physicalMemory _ | virtualMemory _ => []
  | cache c => [c.lowerLevel]
  | walker w => [w.lowerLevel, virtualMemoryName]
  | core c => [c.itlb, c.dtlb, c.l1i, c.l1d]

/-- Is an element declared before another one, or in the same place? Deeper levels come first, and
names decide between equal levels. -/
def before (a b : Element) : Bool :=
  b.fillLevel < a.fillLevel || (a.fillLevel == b.fillLevel && !decide (b.name < a.name))

end Element

namespace Model

/-- The caches, and then the walkers. -/
def records (m : Model) : List Element :=
  m.caches.values.map .cache ++ m.walkers.values.map .walker

/-- All elements in the order in which they are to be declared: memories, then caches and walkers
from the deepest one up, and cores last. -/
def elements (m : Model) : List Element :=
  [.physicalMemory m.physicalMemory, .virtualMemory m.virtualMemory]
  ++ m.records.mergeSort Element.before
  ++ m.cores.map .core

end Model

/-- The first element that points at a name which is not declared before it, with that name.
References are tried in the order in which they are written. -/
def firstForwardReference? (declared : NameSet) : List Element → Option (Element × String)
  | [] => none
  | element :: rest =>
    match element.references.find? fun name => !declared.contains name with
    | some name => some (element, name)
    | none => firstForwardReference? (declared.insert element.name) rest

/-- All elements in the order in which they are declared, unless one of them points at a name that
is declared after it or not at all. -/
def declarationOrder (m : Model) : Except CompileError (List Element) :=
  match firstForwardReference? {memorySentinel} m.elements with
  | some (element, name) => .error (.forwardReference element.name name)
  | none => .ok m.elements

end MemoryHierarchy
