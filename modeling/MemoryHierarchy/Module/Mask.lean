import MemoryHierarchy.Module.Set

/-!
# Masks of modules

In the generated code a constant stands for each module of a set: a word in which its bit alone is
set. The modules of a record are a mask, the union of their constants, and a module is enabled where
its constant and the mask meet.
-/

namespace MemoryHierarchy

/-- The constant that stands for a module in generated code. -/
def ModuleKind.constant (kind : ModuleKind) (module : String) : String :=
  kind.constantSpace ++ "::" ++ module

/-- The constant of a module. Within a namespace its name is that of the module. -/
structure MaskConstant where
  name : String
  bit : Nat
deriving DecidableEq

namespace MaskConstant

/-- The word that a constant is. -/
def value (c : MaskConstant) : Nat := 1 <<< c.bit

/-- The declaration of a constant. -/
def line (c : MaskConstant) : String :=
  "inline constexpr unsigned long long " ++ c.name ++ " = 1ull << " ++ toString c.bit ++ ";"

end MaskConstant

namespace ModuleSet

/-- The constants of the modules of a set. They come in the order of the bits. -/
def constants (s : ModuleSet) : List MaskConstant := s.modules.map fun m => ⟨m.name, m.bit⟩

/-- The word that is declared for a name, where one is. Of several constants with one name the first
one counts; in a set there is at most one. -/
def constantOf? (s : ModuleSet) (name : String) : Option Nat :=
  (s.constants.find? (·.name = name)).map (·.value)

/-- The union of the words that are declared for some names. Names without a constant add nothing.
-/
def maskOf (s : ModuleSet) (names : List String) : Nat :=
  names.foldl (fun mask name => mask ||| (s.constantOf? name).getD 0) 0

/-- Do a mask and the word that is declared for a name meet? -/
def enables (s : ModuleSet) (mask : Nat) (name : String) : Bool :=
  mask &&& (s.constantOf? name).getD 0 != 0

end ModuleSet

end MemoryHierarchy
