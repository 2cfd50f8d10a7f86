/-!
# Categories of modules

A module is a piece of simulator source of one of four categories. The category fixes the host class
that calls the module, the entry points the host calls, and how the answers of several modules are
combined.
-/

namespace MemoryHierarchy

/-- The categories of modules. -/
inductive ModuleKind where
  | branch
  | btb
  | prefetcher
  | replacement
deriving DecidableEq, Repr

namespace ModuleKind

/-- All categories, in the order in which they are written. -/
def all : List ModuleKind := [branch, btb, prefetcher, replacement]

/-- The name of a category. Directories and namespaces are called after it. -/
def category : ModuleKind → String
  | branch => "branch"
  | btb => "btb"
  | prefetcher => "prefetcher"
  | replacement => "replacement"

/-- What the symbols of free functions begin with. -/
def symbolHead : ModuleKind → String
  | branch => "bpred"
  | btb => "btb"
  | prefetcher => "pref"
  | replacement => "repl"

/-- The attribute of a record that names the modules. Cores and caches have different slots, so a
record asks for modules of its own host only. -/
def slot : ModuleKind → String
  | branch => "branch_predictor"
  | btb => "btb"
  | prefetcher => "prefetcher"
  | replacement => "replacement"

/-- The member of the host that holds the mask of enabled modules. -/
def maskField : ModuleKind → String
  | branch => "bpred_type"
  | btb => "btb_type"
  | prefetcher => "pref_type"
  | replacement => "repl_type"

/-- The attribute of the root that lists directories to search. -/
def directoriesKey (kind : ModuleKind) : String := kind.category ++ "_dirs"

/-- The namespace of the constants that stand for the modules. -/
def constantSpace (kind : ModuleKind) : String := "topogen::modules::" ++ kind.category

end ModuleKind

/-- The classes that call modules. -/
inductive Host where
  | core
  | cache
deriving DecidableEq, Repr

namespace Host

/-- The name of a class. -/
def className : Host → String
  | core => "O3_CPU"
  | cache => "CACHE"

/-- The categories that a class calls. -/
def kinds : Host → List ModuleKind
  | core => [.branch, .btb]
  | cache => [.prefetcher, .replacement]

/-- The class that calls the modules of a category. -/
def of : ModuleKind → Host
  | .branch | .btb => core
  | .prefetcher | .replacement => cache

end Host

/-- How the answers of several modules are combined. -/
inductive MergePolicy where
  /-- There is no answer; every enabled module is called. -/
  | call
  /-- The answers of all enabled modules are combined by exclusive or. -/
  | xor
  /-- The first enabled module answers. -/
  | firstWins
deriving DecidableEq, Repr

/-- The name of a policy. -/
def MergePolicy.name : MergePolicy → String
  | call => "Call"
  | xor => "Xor"
  | firstWins => "FirstWins"

/-- A parameter of an entry point. -/
structure Parameter where
  type : String
  name : String
deriving DecidableEq, Repr

/-- A function through which a host calls its modules. What several modules answer is combined by
its policy, which is fixed for each function. -/
structure EntryPoint where
  name : String
  returns : String
  params : List Parameter
  policy : MergePolicy
deriving DecidableEq, Repr

namespace EntryPoint

/-- The parameters with their types. They are written so in declarations and in definitions. -/
def parameters (e : EntryPoint) : String :=
  ", ".intercalate (e.params.map fun p => p.type ++ " " ++ p.name)

/-- The names of the parameters. Calls hand the parameters on unchanged. -/
def arguments (e : EntryPoint) : String := ", ".intercalate (e.params.map (·.name))

/-- The entry points of a branch direction predictor. -/
def branch : List EntryPoint :=
  [⟨"initialize_branch_predictor", "void", [], .call⟩,
    ⟨"last_branch_result", "void",
      [⟨"uint64_t", "ip"⟩, ⟨"uint64_t", "branch_target"⟩, ⟨"uint8_t", "taken"⟩,
        ⟨"uint8_t", "branch_type"⟩], .call⟩,
    ⟨"predict_branch", "uint8_t", [⟨"uint64_t", "ip"⟩], .firstWins⟩]

/-- The entry points of a branch target buffer. -/
def btb : List EntryPoint :=
  [⟨"initialize_btb", "void", [], .call⟩,
    ⟨"update_btb", "void",
      [⟨"uint64_t", "ip"⟩, ⟨"uint64_t", "branch_target"⟩, ⟨"uint8_t", "taken"⟩,
        ⟨"uint8_t", "branch_type"⟩], .call⟩,
    ⟨"btb_prediction", "std::pair<uint64_t, uint8_t>", [⟨"uint64_t", "ip"⟩], .firstWins⟩]

/-- The entry points of a prefetcher. -/
def prefetcher : List EntryPoint :=
  [⟨"prefetcher_initialize", "void", [], .call⟩,
    ⟨"prefetcher_cache_operate", "uint32_t",
      [⟨"uint64_t", "addr"⟩, ⟨"uint64_t", "ip"⟩, ⟨"uint8_t", "cache_hit"⟩,
        ⟨"bool", "useful_prefetch"⟩, ⟨"uint8_t", "type"⟩, ⟨"uint32_t", "metadata_in"⟩], .xor⟩,
    ⟨"prefetcher_cache_fill", "uint32_t",
      [⟨"uint64_t", "addr"⟩, ⟨"uint32_t", "set"⟩, ⟨"uint32_t", "way"⟩, ⟨"uint8_t", "prefetch"⟩,
        ⟨"uint64_t", "evicted_addr"⟩, ⟨"uint32_t", "metadata_in"⟩], .xor⟩,
    ⟨"prefetcher_cycle_operate", "void", [], .call⟩,
    ⟨"prefetcher_final_stats", "void", [], .call⟩,
    ⟨"prefetcher_branch_operate", "void",
      [⟨"uint64_t", "ip"⟩, ⟨"uint8_t", "branch_type"⟩, ⟨"uint64_t", "branch_target"⟩], .call⟩]

/-- The entry points of a replacement policy. -/
def replacement : List EntryPoint :=
  [⟨"initialize_replacement", "void", [], .call⟩,
    ⟨"find_victim", "uint32_t",
      [⟨"uint32_t", "triggering_cpu"⟩, ⟨"uint64_t", "instr_id"⟩, ⟨"uint32_t", "set"⟩,
        ⟨"const BLOCK*", "current_set"⟩, ⟨"uint64_t", "ip"⟩, ⟨"uint64_t", "full_addr"⟩,
        ⟨"uint32_t", "type"⟩], .firstWins⟩,
    ⟨"update_replacement_state", "void",
      [⟨"uint32_t", "triggering_cpu"⟩, ⟨"uint32_t", "set"⟩, ⟨"uint32_t", "way"⟩,
        ⟨"uint64_t", "full_addr"⟩, ⟨"uint64_t", "ip"⟩, ⟨"uint64_t", "victim_addr"⟩,
        ⟨"uint32_t", "type"⟩, ⟨"uint8_t", "hit"⟩], .call⟩,
    ⟨"replacement_final_stats", "void", [], .call⟩]

/-- The entry points of a category, in the order in which they are declared. -/
def ofKind : ModuleKind → List EntryPoint
  | .branch => branch
  | .btb => btb
  | .prefetcher => prefetcher
  | .replacement => replacement

end EntryPoint

end MemoryHierarchy
