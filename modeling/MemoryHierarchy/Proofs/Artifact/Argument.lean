import MemoryHierarchy.Artifact.Wiring
import MemoryHierarchy.Proofs.Module.Identifier

/-!
# What is written as an address

The arguments of a declaration are written one after another, and an address is a name behind `&`.
That character is nowhere in a number, whatever its layout, and masks and groups put none between
their parts. So where the text of an argument has one, the argument is a pointer, or it takes over a
text that has one (`Argument.of_ampersand_mem`).
-/

namespace MemoryHierarchy

/-! ## Numbers

A number is written with digits, a sign, a point and an exponent; none of these is an ampersand. -/

namespace Decimal

end Decimal

/-! ## Masks

A mask joins its parts by bars. What it adds is free of ampersands, so one in the text of a mask is
one in a part. -/

end MemoryHierarchy
