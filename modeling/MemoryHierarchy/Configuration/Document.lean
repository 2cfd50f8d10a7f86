import MemoryHierarchy.Configuration.Resolved

/-!
# Resolved configurations as documents

The one document that shows everything a resolved configuration holds.
-/

namespace MemoryHierarchy

/-- Records by name as a document. -/
def RecordMap.document (records : RecordMap) : Document :=
  records.toList.map fun (name, record) => (name, .object record)

/-- Constants as a document. -/
def Constants.document (c : Constants) : Document :=
  [("block_size", .ofNat c.blockSize),
    ("page_size", .ofNat c.pageSize),
    ("heartbeat_frequency", .ofNat c.heartbeatFrequency),
    ("num_cpus", .ofNat c.coreCount),
    ("log2_block_size", .ofNat c.log2BlockSize),
    ("log2_page_size", .ofNat c.log2PageSize)]

/-- What is known of a module as a document. -/
def ModuleData.document (m : ModuleData) : Document :=
  [("name", .string m.name),
    ("path", .string m.path.text),
    ("class", .string m.className),
    ("legacy", .bool m.legacy),
    ("func_map", .object (m.functions.toList.map fun (name, symbol) => (name, .string symbol)))]

/-- A module of a set as a document. -/
def ModuleInfo.document (m : ModuleInfo) : Document :=
  m.data.document ++ [("bit", .ofNat m.bit)]

/-- A set of modules as a document; aliases are not shown. -/
def ModuleSet.document (s : ModuleSet) : Document :=
  [("kind", .string s.kind.category),
    ("modules", .array (s.modules.map fun m => .object m.document))]

/-- The modules of all categories as a document. -/
def ModuleCatalog.document (c : ModuleCatalog) : Document :=
  ModuleKind.all.map fun kind => (kind.category, .object (c.get kind).document)

/-- A build environment as a document. -/
def BuildEnvironment.document (e : BuildEnvironment) : Document :=
  [("config_name", match e.configName with
      | some name => .string name
      | none => .null),
    ("executable_name", .string e.executableName),
    ("build_id", .string e.buildId),
    ("objdir", .string e.objectDirectory.text)]

/-- A resolved configuration as a document. -/
def ResolvedConfiguration.document (r : ResolvedConfiguration) : Document :=
  [("root", .object r.root),
    ("cores", .array (r.cores.map .object)),
    ("caches", .object r.caches.document),
    ("ptws", .object r.walkers.document),
    ("pmem", .object r.physicalMemory),
    ("vmem", .object r.virtualMemory),
    ("constants", .object r.constants.document),
    ("modules", .object r.modules.document),
    ("env", .object r.environment.document)]

end MemoryHierarchy
