import MemoryHierarchy.Artifact.Text
import MemoryHierarchy.Model.Basic

/-!
# The header of constants

The header gives the numbers that concern the whole system, and those of the physical memory.
-/

namespace MemoryHierarchy

/-- A constant of the header. The value is a text, since numbers and doubles are both written there.
-/
structure HeaderConstant where
  type : String
  name : String
  value : String
deriving DecidableEq

/-- The line of a constant. -/
def HeaderConstant.line (c : HeaderConstant) : String :=
  "inline constexpr " ++ c.type ++ " " ++ c.name ++ " = " ++ c.value ++ ";"

namespace HeaderConstant

/-- A size. -/
def size (name : String) (n : Nat) : HeaderConstant := ⟨"std::size_t", name, toString n⟩

/-- A logarithm. -/
def logarithm (name : String) (n : Nat) : HeaderConstant := ⟨"unsigned", name, toString n⟩

/-- The constants of the system. The logarithms stand last, apart from the sizes that they belong
to. -/
def ofConstants (c : Constants) : List HeaderConstant :=
  [size "BLOCK_SIZE" c.blockSize, size "PAGE_SIZE" c.pageSize,
    ⟨"uint64_t", "STAT_PRINTING_PERIOD", toString c.heartbeatFrequency⟩,
    size "NUM_CPUS" c.coreCount, logarithm "LOG2_BLOCK_SIZE" c.log2BlockSize,
    logarithm "LOG2_PAGE_SIZE" c.log2PageSize]

/-- The constants of the physical memory. Its clock is the only double of the header. -/
def ofMemory (m : PhysicalMemory) : List HeaderConstant :=
  [⟨"double", "DRAM_IO_FREQ", plainLayout.write m.frequency⟩, size "DRAM_CHANNELS" m.channels,
    size "DRAM_RANKS" m.ranks, size "DRAM_BANKGROUPS" m.bankGroups, size "DRAM_BANKS" m.banks,
    size "DRAM_ROWS" m.rows, size "DRAM_COLUMNS" m.columns,
    size "DRAM_CHANNEL_WIDTH" m.channelWidth, size "DRAM_WQ_SIZE" m.writeQueue,
    size "DRAM_RQ_SIZE" m.readQueue]

end HeaderConstant

namespace Header

/-- The symbol that keeps the header from being read twice. -/
def guardSymbol : String := "TOPOGEN_GENERATED_CONSTANTS_H"

/-- The lines of the header of a model. -/
def lines (m : Model) : List String :=
  [generatedHeader, "#ifndef " ++ guardSymbol, "#define " ++ guardSymbol, "",
    "#include <cstddef>", "#include <cstdint>", ""]
  ++ (HeaderConstant.ofConstants m.constants).map HeaderConstant.line
  ++ [""]
  ++ (HeaderConstant.ofMemory m.physicalMemory).map HeaderConstant.line
  ++ ["", "#endif  // " ++ guardSymbol]

end Header

end MemoryHierarchy
