import MemoryHierarchy.Model.Conversion

/-!
# Typed records

The records of a resolved configuration with a type for each field. A core and a cache keep what is
no field of theirs in `options`; the other records drop it. Each record is read by `ofDocument` and
written by `document`.
-/

namespace MemoryHierarchy

/-- A double as a value of a typed record, which is a number even where it is whole. -/
def Json.exactFloat (x : Float) : Json := .number (.float x)

/-- The decoded instruction buffer of a core. -/
structure InstructionBuffer where
  window : Nat
  sets : Nat
  ways : Nat
deriving DecidableEq

namespace InstructionBuffer

/-- The fields of an instruction buffer. -/
def schema : Schema :=
  [Reader.word.field "window_size", Reader.word.field "sets", Reader.word.field "ways"]

/-- Reads an instruction buffer from a mapping. -/
def ofDocument (doc : Document) : Except ConversionError InstructionBuffer := do
  schema.check doc
  pure {
    window := ← doc.read .word "window_size"
    sets := ← doc.read .word "sets"
    ways := ← doc.read .word "ways" }

/-- Reads an instruction buffer from a list of its fields in their order. Items are read before the
length of the list is looked at. -/
def ofItems (items : List Json) : Except ConversionError InstructionBuffer := do
  match ← (items.take 3).mapM Reader.word with
  | [window, sets, ways] =>
    if items.length = 3 then pure ⟨window, sets, ways⟩ else throw (.tooLong items.length)
  | _ => throw (.tooShort items.length)

/-- Reads an instruction buffer. -/
def read : Reader InstructionBuffer
  | .object fields => ofDocument fields
  | .array items => ofItems items
  | found => .error (.wrongType found .instructionBuffer)

/-- An instruction buffer as a document. -/
def document (b : InstructionBuffer) : Document :=
  [("window_size", .ofNat b.window), ("sets", .ofNat b.sets), ("ways", .ofNat b.ways)]

end InstructionBuffer

/-- An out-of-order core. -/
structure Core where
  name : String
  index : Nat
  frequency : Float
  clockScale : Float
  instructionBuffer : InstructionBuffer
  fetchBuffer : Nat
  decodeBuffer : Nat
  dispatchBuffer : Nat
  reorderBuffer : Nat
  loadQueue : Nat
  storeQueue : Nat
  fetchWidth : Nat
  decodeWidth : Nat
  dispatchWidth : Nat
  scheduler : Nat
  executeWidth : Nat
  loadWidth : Nat
  storeWidth : Nat
  retireWidth : Nat
  mispredictPenalty : Nat
  decodeLatency : Nat
  dispatchLatency : Nat
  scheduleLatency : Nat
  executeLatency : Nat
  l1i : String
  l1d : String
  itlb : String
  dtlb : String
  branchPredictors : List String
  targetBuffers : List String
  options : NameMap Json

namespace Core

/-- The fields of a core. -/
def schema : Schema :=
  [Reader.string.field "name",
    Reader.size.field "index",
    Reader.float.field "frequency",
    Reader.float.field "clock_scale",
    InstructionBuffer.read.field "DIB",
    Reader.word.field "ifetch_buffer_size",
    Reader.word.field "decode_buffer_size",
    Reader.word.field "dispatch_buffer_size",
    Reader.word.field "rob_size",
    Reader.word.field "lq_size",
    Reader.word.field "sq_size",
    Reader.word.field "fetch_width",
    Reader.word.field "decode_width",
    Reader.word.field "dispatch_width",
    Reader.word.field "scheduler_size",
    Reader.word.field "execute_width",
    Reader.word.field "lq_width",
    Reader.word.field "sq_width",
    Reader.word.field "retire_width",
    Reader.word.field "mispredict_penalty",
    Reader.word.field "decode_latency",
    Reader.word.field "dispatch_latency",
    Reader.word.field "schedule_latency",
    Reader.word.field "execute_latency",
    Reader.string.field "L1I",
    Reader.string.field "L1D",
    Reader.string.field "ITLB",
    Reader.string.field "DTLB",
    Reader.strings.field "branch_predictor",
    Reader.strings.field "btb"]

/-- Reads a core. -/
def ofDocument (doc : Document) : Except ConversionError Core := do
  schema.check doc
  pure {
    name := ← doc.read .string "name"
    index := ← doc.read .size "index"
    frequency := ← doc.read .float "frequency"
    clockScale := ← doc.read .float "clock_scale"
    instructionBuffer := ← doc.read InstructionBuffer.read "DIB"
    fetchBuffer := ← doc.read .word "ifetch_buffer_size"
    decodeBuffer := ← doc.read .word "decode_buffer_size"
    dispatchBuffer := ← doc.read .word "dispatch_buffer_size"
    reorderBuffer := ← doc.read .word "rob_size"
    loadQueue := ← doc.read .word "lq_size"
    storeQueue := ← doc.read .word "sq_size"
    fetchWidth := ← doc.read .word "fetch_width"
    decodeWidth := ← doc.read .word "decode_width"
    dispatchWidth := ← doc.read .word "dispatch_width"
    scheduler := ← doc.read .word "scheduler_size"
    executeWidth := ← doc.read .word "execute_width"
    loadWidth := ← doc.read .word "lq_width"
    storeWidth := ← doc.read .word "sq_width"
    retireWidth := ← doc.read .word "retire_width"
    mispredictPenalty := ← doc.read .word "mispredict_penalty"
    decodeLatency := ← doc.read .word "decode_latency"
    dispatchLatency := ← doc.read .word "dispatch_latency"
    scheduleLatency := ← doc.read .word "schedule_latency"
    executeLatency := ← doc.read .word "execute_latency"
    l1i := ← doc.read .string "L1I"
    l1d := ← doc.read .string "L1D"
    itlb := ← doc.read .string "ITLB"
    dtlb := ← doc.read .string "DTLB"
    branchPredictors := ← doc.read .strings "branch_predictor"
    targetBuffers := ← doc.read .strings "btb"
    options := schema.others doc }

/-- A core as a document. -/
def document (c : Core) : Document :=
  [("name", .string c.name),
    ("index", .ofNat c.index),
    ("frequency", .exactFloat c.frequency),
    ("clock_scale", .exactFloat c.clockScale),
    ("DIB", .object c.instructionBuffer.document),
    ("ifetch_buffer_size", .ofNat c.fetchBuffer),
    ("decode_buffer_size", .ofNat c.decodeBuffer),
    ("dispatch_buffer_size", .ofNat c.dispatchBuffer),
    ("rob_size", .ofNat c.reorderBuffer),
    ("lq_size", .ofNat c.loadQueue),
    ("sq_size", .ofNat c.storeQueue),
    ("fetch_width", .ofNat c.fetchWidth),
    ("decode_width", .ofNat c.decodeWidth),
    ("dispatch_width", .ofNat c.dispatchWidth),
    ("scheduler_size", .ofNat c.scheduler),
    ("execute_width", .ofNat c.executeWidth),
    ("lq_width", .ofNat c.loadWidth),
    ("sq_width", .ofNat c.storeWidth),
    ("retire_width", .ofNat c.retireWidth),
    ("mispredict_penalty", .ofNat c.mispredictPenalty),
    ("decode_latency", .ofNat c.decodeLatency),
    ("dispatch_latency", .ofNat c.dispatchLatency),
    ("schedule_latency", .ofNat c.scheduleLatency),
    ("execute_latency", .ofNat c.executeLatency),
    ("L1I", .string c.l1i),
    ("L1D", .string c.l1d),
    ("ITLB", .string c.itlb),
    ("DTLB", .string c.dtlb),
    ("branch_predictor", .ofStrings c.branchPredictors),
    ("btb", .ofStrings c.targetBuffers)]
  ++ c.options.toList

end Core

/-- A cache, which may hold translations. -/
structure Cache where
  name : String
  frequency : Float
  clockScale : Float
  fillLevel : Nat
  sets : Nat
  ways : Nat
  readQueue : Nat
  writeQueue : Nat
  prefetchQueue : Nat
  missRegisters : Nat
  latency : Nat
  hitLatency : Nat
  fillLatency : Nat
  tagChecks : Nat
  fills : Nat
  offsetBits : Nat
  prefetchAsLoad : Bool
  checkFullAddress : Bool
  virtualPrefetch : Bool
  needsTranslate : Bool
  prefetchActivate : List String
  lowerLevel : String
  lowerTranslate : Option String
  prefetchers : List String
  replacements : List String
  options : NameMap Json

namespace Cache

/-- The fields of a cache. -/
def schema : Schema :=
  [Reader.string.field "name",
    Reader.float.field "frequency",
    Reader.float.field "clock_scale",
    Reader.halfWord.field "fill_level",
    Reader.word.field "sets",
    Reader.word.field "ways",
    Reader.word.field "rq_size",
    Reader.word.field "wq_size",
    Reader.word.field "pq_size",
    Reader.word.field "mshr_size",
    Reader.word.field "latency",
    Reader.word.field "hit_latency",
    Reader.word.field "fill_latency",
    Reader.word.field "max_tag_check",
    Reader.word.field "max_fill",
    Reader.halfWord.field "offset_bits",
    Reader.boolean.field "prefetch_as_load",
    Reader.boolean.field "wq_check_full_addr",
    Reader.boolean.field "virtual_prefetch",
    Reader.boolean.field "needs_translate",
    Reader.strings.field "prefetch_activate",
    Reader.string.field "lower_level",
    Reader.nullableString.optionalField "lower_translate",
    Reader.strings.field "prefetcher",
    Reader.strings.field "replacement"]

/-- Reads a cache. -/
def ofDocument (doc : Document) : Except ConversionError Cache := do
  schema.check doc
  pure {
    name := ← doc.read .string "name"
    frequency := ← doc.read .float "frequency"
    clockScale := ← doc.read .float "clock_scale"
    fillLevel := ← doc.read .halfWord "fill_level"
    sets := ← doc.read .word "sets"
    ways := ← doc.read .word "ways"
    readQueue := ← doc.read .word "rq_size"
    writeQueue := ← doc.read .word "wq_size"
    prefetchQueue := ← doc.read .word "pq_size"
    missRegisters := ← doc.read .word "mshr_size"
    latency := ← doc.read .word "latency"
    hitLatency := ← doc.read .word "hit_latency"
    fillLatency := ← doc.read .word "fill_latency"
    tagChecks := ← doc.read .word "max_tag_check"
    fills := ← doc.read .word "max_fill"
    offsetBits := ← doc.read .halfWord "offset_bits"
    prefetchAsLoad := ← doc.read .boolean "prefetch_as_load"
    checkFullAddress := ← doc.read .boolean "wq_check_full_addr"
    virtualPrefetch := ← doc.read .boolean "virtual_prefetch"
    needsTranslate := ← doc.read .boolean "needs_translate"
    prefetchActivate := ← doc.read .strings "prefetch_activate"
    lowerLevel := ← doc.read .string "lower_level"
    lowerTranslate := ← doc.readOptional .nullableString "lower_translate"
    prefetchers := ← doc.read .strings "prefetcher"
    replacements := ← doc.read .strings "replacement"
    options := schema.others doc }

/-- A cache as a document. -/
def document (c : Cache) : Document :=
  [("name", .string c.name),
    ("frequency", .exactFloat c.frequency),
    ("clock_scale", .exactFloat c.clockScale),
    ("fill_level", .ofNat c.fillLevel),
    ("sets", .ofNat c.sets),
    ("ways", .ofNat c.ways),
    ("rq_size", .ofNat c.readQueue),
    ("wq_size", .ofNat c.writeQueue),
    ("pq_size", .ofNat c.prefetchQueue),
    ("mshr_size", .ofNat c.missRegisters),
    ("latency", .ofNat c.latency),
    ("hit_latency", .ofNat c.hitLatency),
    ("fill_latency", .ofNat c.fillLatency),
    ("max_tag_check", .ofNat c.tagChecks),
    ("max_fill", .ofNat c.fills),
    ("offset_bits", .ofNat c.offsetBits),
    ("prefetch_as_load", .bool c.prefetchAsLoad),
    ("wq_check_full_addr", .bool c.checkFullAddress),
    ("virtual_prefetch", .bool c.virtualPrefetch),
    ("needs_translate", .bool c.needsTranslate),
    ("prefetch_activate", .ofStrings c.prefetchActivate),
    ("lower_level", .string c.lowerLevel),
    ("lower_translate", match c.lowerTranslate with
      | some target => .string target
      | none => .null),
    ("prefetcher", .ofStrings c.prefetchers),
    ("replacement", .ofStrings c.replacements)]
  ++ c.options.toList

end Cache

/-- A page-table walker. -/
structure Walker where
  name : String
  cpu : Nat
  frequency : Float
  clockScale : Float
  fillLevel : Nat
  level5Sets : Nat
  level5Ways : Nat
  level4Sets : Nat
  level4Ways : Nat
  level3Sets : Nat
  level3Ways : Nat
  level2Sets : Nat
  level2Ways : Nat
  readQueue : Nat
  missRegisters : Nat
  reads : Nat
  writes : Nat
  lowerLevel : String

namespace Walker

/-- The fields of a walker. -/
def schema : Schema :=
  [Reader.string.field "name",
    Reader.size.field "cpu",
    Reader.float.field "frequency",
    Reader.float.field "clock_scale",
    Reader.halfWord.field "fill_level",
    Reader.word.field "pscl5_set",
    Reader.word.field "pscl5_way",
    Reader.word.field "pscl4_set",
    Reader.word.field "pscl4_way",
    Reader.word.field "pscl3_set",
    Reader.word.field "pscl3_way",
    Reader.word.field "pscl2_set",
    Reader.word.field "pscl2_way",
    Reader.word.field "rq_size",
    Reader.word.field "mshr_size",
    Reader.word.field "max_read",
    Reader.word.field "max_write",
    Reader.string.field "lower_level"]

/-- Reads a walker. -/
def ofDocument (doc : Document) : Except ConversionError Walker := do
  schema.check doc
  pure {
    name := ← doc.read .string "name"
    cpu := ← doc.read .size "cpu"
    frequency := ← doc.read .float "frequency"
    clockScale := ← doc.read .float "clock_scale"
    fillLevel := ← doc.read .halfWord "fill_level"
    level5Sets := ← doc.read .word "pscl5_set"
    level5Ways := ← doc.read .word "pscl5_way"
    level4Sets := ← doc.read .word "pscl4_set"
    level4Ways := ← doc.read .word "pscl4_way"
    level3Sets := ← doc.read .word "pscl3_set"
    level3Ways := ← doc.read .word "pscl3_way"
    level2Sets := ← doc.read .word "pscl2_set"
    level2Ways := ← doc.read .word "pscl2_way"
    readQueue := ← doc.read .word "rq_size"
    missRegisters := ← doc.read .word "mshr_size"
    reads := ← doc.read .word "max_read"
    writes := ← doc.read .word "max_write"
    lowerLevel := ← doc.read .string "lower_level" }

/-- A walker as a document. -/
def document (w : Walker) : Document :=
  [("name", .string w.name),
    ("cpu", .ofNat w.cpu),
    ("frequency", .exactFloat w.frequency),
    ("clock_scale", .exactFloat w.clockScale),
    ("fill_level", .ofNat w.fillLevel),
    ("pscl5_set", .ofNat w.level5Sets),
    ("pscl5_way", .ofNat w.level5Ways),
    ("pscl4_set", .ofNat w.level4Sets),
    ("pscl4_way", .ofNat w.level4Ways),
    ("pscl3_set", .ofNat w.level3Sets),
    ("pscl3_way", .ofNat w.level3Ways),
    ("pscl2_set", .ofNat w.level2Sets),
    ("pscl2_way", .ofNat w.level2Ways),
    ("rq_size", .ofNat w.readQueue),
    ("mshr_size", .ofNat w.missRegisters),
    ("max_read", .ofNat w.reads),
    ("max_write", .ofNat w.writes),
    ("lower_level", .string w.lowerLevel)]

end Walker

/-- The physical memory controller. -/
structure PhysicalMemory where
  name : String
  frequency : Float
  channels : Nat
  ranks : Nat
  bankGroups : Nat
  banks : Nat
  rows : Nat
  columns : Nat
  channelWidth : Nat
  readQueue : Nat
  writeQueue : Nat
  prechargeTime : Nat
  rowToColumnDelay : Nat
  columnLatency : Nat
  rowActiveTime : Nat
  refreshPeriod : Nat
  refreshesPerPeriod : Nat

namespace PhysicalMemory

/-- The fields of a physical memory controller. -/
def schema : Schema :=
  [Reader.string.field "name",
    Reader.float.field "frequency",
    Reader.word.field "channels",
    Reader.word.field "ranks",
    Reader.word.field "bankgroups",
    Reader.word.field "banks",
    Reader.word.field "bank_rows",
    Reader.word.field "bank_columns",
    Reader.word.field "channel_width",
    Reader.word.field "rq_size",
    Reader.word.field "wq_size",
    Reader.word.field "tRP",
    Reader.word.field "tRCD",
    Reader.word.field "tCAS",
    Reader.word.field "tRAS",
    Reader.word.field "refresh_period",
    Reader.word.field "refreshes_per_period"]

/-- Reads a physical memory controller. -/
def ofDocument (doc : Document) : Except ConversionError PhysicalMemory := do
  schema.check doc
  pure {
    name := ← doc.read .string "name"
    frequency := ← doc.read .float "frequency"
    channels := ← doc.read .word "channels"
    ranks := ← doc.read .word "ranks"
    bankGroups := ← doc.read .word "bankgroups"
    banks := ← doc.read .word "banks"
    rows := ← doc.read .word "bank_rows"
    columns := ← doc.read .word "bank_columns"
    channelWidth := ← doc.read .word "channel_width"
    readQueue := ← doc.read .word "rq_size"
    writeQueue := ← doc.read .word "wq_size"
    prechargeTime := ← doc.read .word "tRP"
    rowToColumnDelay := ← doc.read .word "tRCD"
    columnLatency := ← doc.read .word "tCAS"
    rowActiveTime := ← doc.read .word "tRAS"
    refreshPeriod := ← doc.read .word "refresh_period"
    refreshesPerPeriod := ← doc.read .word "refreshes_per_period" }

/-- A physical memory controller as a document. -/
def document (m : PhysicalMemory) : Document :=
  [("name", .string m.name),
    ("frequency", .exactFloat m.frequency),
    ("channels", .ofNat m.channels),
    ("ranks", .ofNat m.ranks),
    ("bankgroups", .ofNat m.bankGroups),
    ("banks", .ofNat m.banks),
    ("bank_rows", .ofNat m.rows),
    ("bank_columns", .ofNat m.columns),
    ("channel_width", .ofNat m.channelWidth),
    ("rq_size", .ofNat m.readQueue),
    ("wq_size", .ofNat m.writeQueue),
    ("tRP", .ofNat m.prechargeTime),
    ("tRCD", .ofNat m.rowToColumnDelay),
    ("tCAS", .ofNat m.columnLatency),
    ("tRAS", .ofNat m.rowActiveTime),
    ("refresh_period", .ofNat m.refreshPeriod),
    ("refreshes_per_period", .ofNat m.refreshesPerPeriod)]

end PhysicalMemory

/-- The virtual memory. -/
structure VirtualMemory where
  tablePageSize : Nat
  levels : Nat
  minorFaultPenalty : Nat
  randomization : Nat
deriving DecidableEq

namespace VirtualMemory

/-- The fields of a virtual memory. -/
def schema : Schema :=
  [Reader.word.field "pte_page_size",
    Reader.word.field "num_levels",
    Reader.word.field "minor_fault_penalty",
    Reader.word.field "randomization"]

/-- Reads a virtual memory. -/
def ofDocument (doc : Document) : Except ConversionError VirtualMemory := do
  schema.check doc
  pure {
    tablePageSize := ← doc.read .word "pte_page_size"
    levels := ← doc.read .word "num_levels"
    minorFaultPenalty := ← doc.read .word "minor_fault_penalty"
    randomization := ← doc.read .word "randomization" }

/-- A virtual memory as a document. -/
def document (v : VirtualMemory) : Document :=
  [("pte_page_size", .ofNat v.tablePageSize),
    ("num_levels", .ofNat v.levels),
    ("minor_fault_penalty", .ofNat v.minorFaultPenalty),
    ("randomization", .ofNat v.randomization)]

end VirtualMemory

end MemoryHierarchy
