import MemoryHierarchy.Decimal.NearestDouble
import MemoryHierarchy.Slot

/-!
# Templates

A record carries only what was written; the templates of this module hold the rest. Those of a
first-level role are fixed, those of a shared role and of a page-table walker grow with the number
of records that share it, and the core, the memories and the root have one template each.
-/

namespace MemoryHierarchy

namespace Template

/-- The block size in bytes where none is given. -/
def blockSize : Nat := 64

/-- The page size in bytes where none is given. -/
def pageSize : Nat := 4096

/-- The number of instructions between two reports where none is given. -/
def heartbeatFrequency : Nat := 10000000

/-- The simulator that is built where none is named. -/
def executableName : String := "bin/champsim"

/-- The clock of a core in MHz. -/
def coreFrequency : Nat := 4000

/-- The clock of the memory controller in MHz. -/
def memoryFrequency : Nat := 3200

/-- The attributes of a core that may be given once for all cores. -/
def coreAttributes : List String :=
  ["frequency", "ifetch_buffer_size", "decode_buffer_size", "dispatch_buffer_size", "rob_size",
    "lq_size", "sq_size", "fetch_width", "decode_width", "dispatch_width", "scheduler_size",
    "execute_width", "lq_width", "sq_width", "retire_width", "mispredict_penalty",
    "decode_latency", "dispatch_latency", "schedule_latency", "execute_latency",
    "branch_predictor", "btb", "DIB"]

/-- What the root holds beside the records. -/
def root : Document :=
  [("block_size", .ofNat blockSize),
    ("page_size", .ofNat pageSize),
    ("heartbeat_frequency", .ofNat heartbeatFrequency),
    ("num_cores", .ofNat 1),
    ("executable_name", .string executableName)]

/-- An out-of-order core. -/
def core : Document :=
  [("frequency", .ofNat coreFrequency),
    ("ifetch_buffer_size", .ofNat 64),
    ("decode_buffer_size", .ofNat 32),
    ("dispatch_buffer_size", .ofNat 32),
    ("rob_size", .ofNat 352),
    ("lq_size", .ofNat 128),
    ("sq_size", .ofNat 72),
    ("fetch_width", .ofNat 6),
    ("decode_width", .ofNat 6),
    ("dispatch_width", .ofNat 6),
    ("scheduler_size", .ofNat 128),
    ("execute_width", .ofNat 4),
    ("lq_width", .ofNat 2),
    ("sq_width", .ofNat 2),
    ("retire_width", .ofNat 5),
    ("mispredict_penalty", .ofNat 1),
    ("decode_latency", .ofNat 1),
    ("dispatch_latency", .ofNat 1),
    ("schedule_latency", .ofNat 0),
    ("execute_latency", .ofNat 0),
    ("branch_predictor", .string "bimodal"),
    ("btb", .string "basic_btb"),
    ("DIB", .object [("window_size", .ofNat 16), ("sets", .ofNat 32), ("ways", .ofNat 8)])]

/-- The physical memory controller. -/
def physicalMemory : Document :=
  [("name", .string memorySentinel),
    ("frequency", .ofNat memoryFrequency),
    ("channels", .ofNat 1),
    ("ranks", .ofNat 1),
    ("bankgroups", .ofNat 8),
    ("banks", .ofNat 4),
    ("bank_rows", .ofNat 65536),
    ("bank_columns", .ofNat 1024),
    ("channel_width", .ofNat 8),
    ("rq_size", .ofNat 64),
    ("wq_size", .ofNat 64),
    ("tRP", .ofNat 24),
    ("tRCD", .ofNat 24),
    ("tCAS", .ofNat 24),
    ("tRAS", .ofNat 52),
    ("refresh_period", .ofNat 32),
    ("refreshes_per_period", .ofNat 8192)]

/-- The virtual memory. -/
def virtualMemory : Document :=
  [("pte_page_size", .ofNat pageSize),
    ("num_levels", .ofNat 5),
    ("minor_fault_penalty", .ofNat 200),
    ("randomization", .ofNat 1)]

/-- What caches of all roles have in common. -/
def anyCache (checkFullAddress : Bool) (prefetcher : String) : Document :=
  [("fill_latency", .ofNat 1),
    ("prefetch_as_load", .bool false),
    ("wq_check_full_addr", .bool checkFullAddress),
    ("prefetch_activate", .ofStrings ["LOAD", "PREFETCH"]),
    ("prefetcher", .string prefetcher),
    ("replacement", .string "lru")]

/-- The geometry of a first-level role. -/
structure FirstLevel where
  sets : Nat
  ways : Nat
  readQueue : Nat
  writeQueue : Nat
  prefetchQueue : Nat
  missRegisters : Nat
  latency : Nat
  tagChecks : Nat
  fills : Nat
  virtualPrefetch : Bool
  prefetcher : String
deriving DecidableEq

/-- The geometry of each first-level role. -/
def firstLevel? : Role → Option FirstLevel
  | .l1i => some ⟨64, 8, 64, 64, 32, 8, 4, 2, 2, true, "no_instr"⟩
  | .l1d => some ⟨64, 12, 64, 64, 8, 16, 5, 2, 2, false, "no"⟩
  | .itlb => some ⟨16, 4, 16, 16, 0, 8, 1, 2, 2, true, "no"⟩
  | .dtlb => some ⟨16, 4, 16, 16, 0, 8, 1, 2, 2, false, "no"⟩
  | .l2c | .stlb | .llc => none

/-- The record of a first-level role. -/
def FirstLevel.document (t : FirstLevel) : Document :=
  [("sets", .ofNat t.sets),
    ("ways", .ofNat t.ways),
    ("rq_size", .ofNat t.readQueue),
    ("wq_size", .ofNat t.writeQueue),
    ("pq_size", .ofNat t.prefetchQueue),
    ("mshr_size", .ofNat t.missRegisters),
    ("latency", .ofNat t.latency),
    ("max_tag_check", .ofNat t.tagChecks),
    ("max_fill", .ofNat t.fills),
    ("virtual_prefetch", .bool t.virtualPrefetch)]
  ++ anyCache true t.prefetcher

/-- The geometry of a shared role, which grows with the number of sharers. -/
structure Shared where
  /-- Sets for each sharer. -/
  setFactor : Nat
  /-- Miss registers for each sharer. -/
  missFactor : Nat
  /-- Twice the tag checks and fills in a cycle for each sharer. -/
  bandwidthHalves : Nat
  ways : Nat
  latency : Nat
  /-- A shared role on the way to a translation has no prefetch queue. -/
  translation : Bool
  checkFullAddress : Bool
  lower : Option String
deriving DecidableEq

/-- A second-level cache. -/
def secondLevelCache : Shared := ⟨512, 32, 1, 8, 10, false, false, none⟩

/-- A second-level translation buffer. -/
def secondLevelTlb : Shared := ⟨64, 8, 1, 12, 8, true, true, none⟩

/-- A last-level cache, and every level between. -/
def lastLevelCache : Shared := ⟨2048, 64, 2, 16, 20, false, false, some memorySentinel⟩

/-- The template of a role that is not on the first level. -/
def shared : Role → Shared
  | .stlb => secondLevelTlb
  | .l2c => secondLevelCache
  | _ => lastLevelCache

/-- The tag checks and fills in a cycle: sharers are counted in double precision, and half of one
is rounded up. -/
def Shared.bandwidth (t : Shared) (sharers : Nat) : Nat :=
  (t.bandwidthHalves * Decimal.nearestDouble sharers + 1) / 2

/-- The record of a shared role for a number of sharers. -/
def Shared.document (t : Shared) (sharers : Nat) : Document :=
  let missRegisters := t.missFactor * sharers
  [("sets", .ofNat (t.setFactor * sharers)),
    ("ways", .ofNat t.ways),
    ("rq_size", .ofNat missRegisters),
    ("wq_size", .ofNat missRegisters),
    ("pq_size", .ofNat (if t.translation then 0 else missRegisters / 2)),
    ("mshr_size", .ofNat missRegisters),
    ("latency", .ofNat t.latency),
    ("max_tag_check", .ofNat (t.bandwidth sharers)),
    ("max_fill", .ofNat (t.bandwidth sharers)),
    ("virtual_prefetch", .bool false)]
  ++ anyCache t.checkFullAddress "no"
  ++ match t.lower with
    | some lower => [(lowerLevel, .string lower)]
    | none => []

/-- The record of a page-table walker for a number of sharers. -/
def walker (sharers : Nat) : Document :=
  [("pscl5_set", .ofNat 1),
    ("pscl5_way", .ofNat 2),
    ("pscl4_set", .ofNat 1),
    ("pscl4_way", .ofNat 4),
    ("pscl3_set", .ofNat 2),
    ("pscl3_way", .ofNat 4),
    ("pscl2_set", .ofNat 4),
    ("pscl2_way", .ofNat 8),
    ("rq_size", .ofNat (16 * sharers)),
    ("mshr_size", .ofNat (5 * sharers)),
    ("max_read", .ofNat (2 * sharers)),
    ("max_write", .ofNat (2 * sharers))]

end Template

end MemoryHierarchy
