import MemoryHierarchy.Module.Mask

/-!
# Code that calls the enabled modules

For each entry point of a category the host has a dispatcher. It tests the mask of enabled modules
against the constant of every module, in the order of the bits, and combines the answers by the
policy of the entry point. Dispatchers are built as data, `Dispatcher`, and written out by
`Dispatcher.lines`.
-/

namespace MemoryHierarchy

namespace Dispatch

/-- The declarations of the constants of a set. The namespace is that of the category, so that
modules of two categories may share a name. -/
def constantLines (s : ModuleSet) : List String :=
  ["namespace " ++ s.kind.constantSpace, "\x7b"]
  ++ s.constants.map MaskConstant.line
  ++ ["\x7d  // namespace " ++ s.kind.constantSpace]

/-- The declaration of a member function. -/
def memberLine (e : EntryPoint) (name : String) : String :=
  e.returns ++ " " ++ name ++ "(" ++ e.parameters ++ ");"

/-- The name of the dispatcher of an entry point. The prefix keeps it apart from the entry point
itself. -/
def dispatcherName (e : EntryPoint) : String := "impl_" ++ e.name

/-- The members that a host declares for a set: the free functions of its modules, then the
dispatchers. -/
def memberLines (s : ModuleSet) : List String :=
  let entries := EntryPoint.ofKind s.kind
  (s.legacy.flatMap fun m => entries.map fun e => memberLine e (m.symbol s.kind e.name))
  ++ entries.map fun e => memberLine e (dispatcherName e)

/-- The forwarder of one entry point in a selector. Where the module is not enabled a default value
is returned, if there is anything to return. -/
def forwarderLines (kind : ModuleKind) (m : ModuleInfo) (e : EntryPoint) : List String :=
  let params := if e.params.isEmpty then "Host& host" else "Host& host, " ++ e.parameters
  let call := "host." ++ m.symbol kind e.name ++ "(" ++ e.arguments ++ ")"
  ["", "  template <typename Host>",
    "  static " ++ e.returns ++ " " ++ e.name ++ "(" ++ params ++ ")",
    "  \x7b", "    if constexpr (enabled)"]
  ++ (if e.policy = .call then ["      " ++ call ++ ";"]
    else ["      return " ++ call ++ ";", "    else", "      return \x7b\x7d;"])
  ++ ["  \x7d"]

/-- The selector of a module made of free functions: it forwards an entry point to its function only
where the module's bit is set in a mask. -/
def selectorLines (kind : ModuleKind) (m : ModuleInfo) : List String :=
  ["template <unsigned long long Mask>",
    "struct " ++ kind.symbolHead ++ "_" ++ m.name ++ "_select",
    "\x7b",
    "  static constexpr bool enabled = (Mask & " ++ kind.constant m.name ++ ") != 0;"]
  ++ (EntryPoint.ofKind kind).flatMap (forwarderLines kind m)
  ++ ["\x7d;"]

/-- The flags that give each entry point of a module made of free functions its symbol. -/
def defineFlags (kind : ModuleKind) (m : ModuleInfo) : List String :=
  (EntryPoint.ofKind kind).map fun e => "-D" ++ e.name ++ "=" ++ m.symbol kind e.name

/-- What is done with the answer of a module that is called. -/
inductive Action where
  | discard
  | combine
  | answer
deriving DecidableEq, Repr

/-- What a policy does with the answer of each module. -/
def Action.ofPolicy : MergePolicy → Action
  | .call => discard
  | .xor => combine
  | .firstWins => answer

/-- A statement of a dispatcher. -/
inductive Statement where
  /-- The result is declared and set to zero. -/
  | declareResult
  /-- If the mask meets the constant of the module, the module is called. -/
  | callIfEnabled (module : ModuleInfo) (action : Action)
  /-- The result is returned. -/
  | returnResult
  /-- The default value is returned. -/
  | returnDefault

/-- The function of a host that calls the enabled modules for an entry point. -/
structure Dispatcher where
  kind : ModuleKind
  entry : EntryPoint
  body : List Statement

/-- The dispatcher of a set for an entry point. All modules of the set have a statement, enabled or
not: which are called is decided by the mask when the code runs. -/
def Dispatcher.ofEntry (s : ModuleSet) (e : EntryPoint) : Dispatcher where
  kind := s.kind
  entry := e
  body :=
    (if e.policy = .xor then [.declareResult] else [])
    ++ s.modules.map (.callIfEnabled · (.ofPolicy e.policy))
    ++ match e.policy with
      | .call => []
      | .xor => [.returnResult]
      | .firstWins => [.returnDefault]

/-- The call of a module. A class is handed the host in front of the other arguments. -/
def callText (kind : ModuleKind) (e : EntryPoint) (m : ModuleInfo) : String :=
  if m.data.legacy then m.symbol kind e.name ++ "(" ++ e.arguments ++ ")"
  else if e.params.isEmpty then m.data.className ++ "::" ++ e.name ++ "(this)"
  else m.data.className ++ "::" ++ e.name ++ "(this, " ++ e.arguments ++ ")"

/-- A call with what is done with its answer. -/
def Action.text (call : String) : Action → String
  | discard => "    " ++ call ++ ";"
  | combine => "    result ^= " ++ call ++ ";"
  | answer => "    return " ++ call ++ ";"

/-- The lines of a statement. A guard and its call stand on two lines. -/
def Statement.lines (kind : ModuleKind) (e : EntryPoint) : Statement → List String
  | declareResult => ["  " ++ e.returns ++ " result = 0;"]
  | callIfEnabled m action =>
    ["  if ((" ++ kind.maskField ++ " & " ++ kind.constant m.name ++ ") != 0)",
      action.text (callText kind e m)]
  | returnResult => ["  return result;"]
  | returnDefault => ["  return \x7b\x7d;"]

/-- The lines of a dispatcher. It is a member of the host, so it reads the mask from there. -/
def Dispatcher.lines (d : Dispatcher) : List String :=
  [d.entry.returns ++ " " ++ (Host.of d.kind).className ++ "::" ++ dispatcherName d.entry ++ "("
      ++ d.entry.parameters ++ ")",
    "\x7b"]
  ++ d.body.flatMap (Statement.lines d.kind d.entry)
  ++ ["\x7d"]

/-- The dispatchers of a set. -/
def dispatchers (s : ModuleSet) : List Dispatcher :=
  (EntryPoint.ofKind s.kind).map (Dispatcher.ofEntry s)

/-- The definitions of a set's dispatchers, with a blank line between two of them. -/
def definitionLines (s : ModuleSet) : List String :=
  [""].intercalate ((dispatchers s).map Dispatcher.lines)

end Dispatch

end MemoryHierarchy
