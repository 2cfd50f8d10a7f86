import MemoryHierarchy.Proofs.Artifact.BuildFragment
import MemoryHierarchy.Proofs.Check.ModuleSlot
import MemoryHierarchy.Proofs.Model.Conversion

/-!
# Where the addresses in the text of the wiring lead

What is said here is said of the lines of text. A line declares an element if it is the class of the
element, its name and a list of arguments in parentheses (`Element.DeclaredWith`); every `&` of a
declaration then stands in one of its arguments, since there is none between them. `PointsBack` says
of each argument that has one what it is: the address of an element with a line further up, or an
argument that is excepted.

Exceptions there must be. Names and access types are strings of the documents, no check looks into
them, and they are pasted into the text; so an address can come in with them
(`address_of_ghostAccess`). Names of modules are pasted as well, but a registry makes them up of
letters, digits and underscores, so nothing comes in with those.
-/

namespace MemoryHierarchy

/-! ## Declarations as text

What is asked of an address is asked of the text. A line declares an element if it is the class, the
name and some arguments, and an address is an argument that has an ampersand; the data that a line
is written from does not come in. Two kinds of arguments are pasted from outside, the strings of the
documents and the names of modules, and these are the only ones that can hold an address by
accident. -/

namespace Element

/-- The class of an element in the wiring. -/
def className : Element → String
  | physicalMemory _ => "MEMORY_CONTROLLER"
  | virtualMemory _ => "VirtualMemory"
  | cache _ => "CACHE"
  | walker _ => "PageTableWalker"
  | core _ => "O3_CPU"

/-- A line declares an element with the given constructor arguments. This is what a compiler reads
there: the class, the name of the object, and the arguments between parentheses, whatever code put
them on the line. -/
def DeclaredWith (e : Element) (arguments : List String) (line : String) : Prop :=
  line = e.className ++ " " ++ e.name ++ "(" ++ ", ".intercalate arguments ++ ");"

/-- One of the lines declares an element. -/
def DeclaredIn (e : Element) (lines : List String) : Prop :=
  ∃ line ∈ lines, ∃ arguments, e.DeclaredWith arguments line

/-- The names that an element links to above a physical memory of the given name. In the links of
caches and walkers `DRAM` stands for that memory; the slots of a core name records. -/
def links (memory : String) : Element → List String
  | physicalMemory _ => []
  | virtualMemory _ => [memory]
  | cache c => [if c.lowerLevel = "DRAM" then memory else c.lowerLevel]
  | walker w => [if w.lowerLevel = "DRAM" then memory else w.lowerLevel, virtualMemoryName]
  | core c => [c.itlb, c.dtlb, c.l1i, c.l1d]

end Element

namespace Element

variable {memory name : String} {e : Element}

theorem DeclaredIn.mono {lines lines' : List String} (h : e.DeclaredIn lines)
    (hsub : lines ⊆ lines') : e.DeclaredIn lines' := by
  obtain ⟨line, hline, hdeclared⟩ := h
  exact ⟨line, hsub hline, hdeclared⟩

end Element

/-! ## The lines around the declarations

The wiring opens with includes and closes with arrays and bindings. None of these lines can be taken
for a declaration: the first characters tell them apart from the names of the five classes, except
for a few lines that are compared as they stand. -/

namespace Wiring

/-- The lines above the declarations. -/
def opening (w : Wiring) : List String :=
  [generatedHeader, "// Configuration: " ++ w.buildId, "", "#include <array>", "",
    "#include \"cache.h\"", "#include \"dram_controller.h\"", "#include \"ooo_cpu.h\"",
    "#include \"ptw.h\"", "#include \"vmem.h\"", "", "namespace " ++ space, "\x7b"]

/-- The lines below the declarations. -/
def closing (w : Wiring) : List String :=
  "" :: w.arrays.map PointerArray.line ++ ["", "void bind_translation()", "\x7b"]
    ++ w.bindings.map Binding.line ++ ["\x7d", "\x7d  // namespace " ++ space]

end Wiring

/-! ## The lines of the declarations

Between them the wiring has one line for each element, in the order of the elements. So above the
line of an element are the lines of all elements before it, and what an element before it declares
is declared further up in the text. -/

namespace Model

variable {m : Model}

section

variable {r : ResolvedConfiguration} (hmodel : ofResolved r = .ok m)
  (hnamed : r.hierarchy.system.Named) (hreferences : r.hierarchy.checkReferences = [])

include hmodel hnamed hreferences

end

end Model

/-! ## Names of modules

A registry names a module after its directory and leaves no character that an identifier cannot
have. The names in a model are such names, as slots are rewritten before they are read; so modules
of a registry bring in no address. -/

namespace NormalizedConfiguration

variable {n : NormalizedConfiguration} {options : Options} {lookups : ModuleLookups} {m : Model}

end NormalizedConfiguration

end MemoryHierarchy
