import Mathlib.Data.List.Infix
import Mathlib.Data.UInt
import MemoryHierarchy.Proofs.Module.Execution

/-!
# Dispatchers implement their policies

For each module of a set, in the order of the bits, a dispatcher has a guard and a command with a
call behind it. `moduleCall` says which call: a module of free functions is called by a symbol, and
a class by its member function. By the meaning of the text (`Runs`), a body that is emitted has one
run, in which the calls of the enabled modules come to what the policy makes of them
(`runs_dispatcher_iff`).

Nothing but the call is left of a module in the text. Two modules that are called alike are
therefore one to a dispatcher: classes of one name in two directories (`call_twice_of_sameClass`),
or free functions with one symbol. Where the calls are different, modules answer independently. -/

namespace MemoryHierarchy.Dispatch

variable {s : ModuleSet} {e : EntryPoint} {kind : ModuleKind}

/-! ## The calls of modules

A module is called by the text that its model has for the entry point. For a class this is a member
function, whose name has no trace of the directory the class was found in; for free functions it is
a symbol that the module's own name goes into. -/

/-- The call of a module for an entry point. A module of free functions is called by the symbol that
its table has for the entry point, or else by the usual one, with the parameters for arguments. A
class is called by the member function of that name, with the host in front of the parameters. -/
def moduleCall (kind : ModuleKind) (e : EntryPoint) (m : ModuleInfo) : Call :=
  let parameters := e.params.map (·.name)
  if m.data.legacy then
    { function :=
        (m.data.functions[e.name]?).getD (kind.symbolHead ++ "_" ++ m.name ++ "_" ++ e.name)
      arguments := parameters }
  else { function := m.data.className ++ "::" ++ e.name, arguments := "this" :: parameters }

theorem callText_eq (kind : ModuleKind) (e : EntryPoint) (m : ModuleInfo) :
    callText kind e m = (moduleCall kind e m).text := by
  unfold callText moduleCall
  split
  · rfl
  · cases hparams : e.params with
    | nil => simp [Call.text, ← String.toList_inj]
    | cons first rest =>
      have hne : ((first :: rest).map (·.name)) ≠ [] := by simp
      simp only [List.isEmpty_cons, Bool.false_eq_true, if_false, Call.text, EntryPoint.arguments,
        hparams, String.intercalate_cons_of_ne_nil hne]
      simp [← String.toList_inj]

/-- The parameters of an entry point are identifiers, and so is the host. -/
theorem wellFormed_moduleCall (he : e ∈ EntryPoint.ofKind kind) (m : ModuleInfo) :
    (moduleCall kind e m).WellFormed := by
  have hall : ∀ kind, ∀ e ∈ EntryPoint.ofKind kind, ∀ p ∈ e.params, IsIdentifier p.name := by
    intro kind
    cases kind <;> decide
  have hparameters : ∀ a ∈ e.params.map (·.name), IsIdentifier a :=
    List.forall_mem_map.mpr (hall kind e he)
  unfold moduleCall Call.WellFormed
  split
  · exact hparameters
  · exact List.forall_mem_cons.mpr ⟨by decide, hparameters⟩

/-- **When two modules are called alike.** A class has one argument more than a free function, so
both are of one form, with one symbol or one name of the class. -/
theorem moduleCall_eq_iff {m m' : ModuleInfo} :
    moduleCall kind e m = moduleCall kind e m' ↔
      m.data.legacy = true ∧ m'.data.legacy = true ∧
          m.symbol kind e.name = m'.symbol kind e.name ∨
        m.data.legacy = false ∧ m'.data.legacy = false ∧
          m.data.className = m'.data.className := by
  unfold moduleCall
  cases m.data.legacy <;> cases m'.data.legacy
  · simp
  · simp
  · simp
  · simp only [if_true, Call.mk.injEq, and_true]
    simp [ModuleInfo.symbol, Module.symbol]

/-! ## The lines of a dispatcher

A dispatcher is a guarded call for each module of its set, between what declares the result and what
returns it. How an answer is used depends on the entry point alone. -/

/-- An entry point returns nothing just where all its calls are made for their effect. -/
theorem returns_eq_void_iff (he : e ∈ EntryPoint.ofKind kind) :
    e.returns = "void" ↔ e.policy = .call := by
  have hall : ∀ kind, ∀ e ∈ EntryPoint.ofKind kind, e.returns = "void" ↔ e.policy = .call := by
    intro kind
    cases kind <;> decide
  exact hall kind e he

/-- The command behind the guard of a module fits the type of the entry point. -/
theorem fits_call (he : e ∈ EntryPoint.ofKind kind) (m : ModuleInfo) :
    (Command.call (.ofPolicy e.policy) (moduleCall kind e m)).Fits e.returns := by
  have hvoid := returns_eq_void_iff he
  have hcall := wellFormed_moduleCall he m
  cases hpolicy : e.policy with
  | call => exact ⟨hvoid.mpr hpolicy, hcall⟩
  | xor => exact ⟨fun h => MergePolicy.noConfusion (hpolicy.symm.trans (hvoid.mp h)), hcall⟩
  | firstWins => exact ⟨fun h => MergePolicy.noConfusion (hpolicy.symm.trans (hvoid.mp h)), hcall⟩

theorem lines_callIfEnabled (kind : ModuleKind) (e : EntryPoint) (m : ModuleInfo)
    (action : Action) :
    (Statement.callIfEnabled m action).lines kind e =
      [guardText kind.maskField (kind.constant m.name),
        "    " ++ (Command.call action (moduleCall kind e m)).text e.returns] := by
  rw [Statement.lines, callText_eq]
  cases action <;> simp [Action.text, Command.text, Command.head, guardText, ← String.toList_inj]

/-- The lines of the guarded calls of some modules. -/
def callLines (kind : ModuleKind) (e : EntryPoint) (modules : List ModuleInfo) : List String :=
  modules.flatMap fun m => (Statement.callIfEnabled m (.ofPolicy e.policy)).lines kind e

/-- The lines between the braces of the dispatcher of a set for an entry point. -/
def bodyLines (s : ModuleSet) (e : EntryPoint) : List String :=
  (Dispatcher.ofEntry s e).body.flatMap (Statement.lines s.kind e)

theorem bodyLines_eq (s : ModuleSet) (e : EntryPoint) :
    bodyLines s e =
      match e.policy with
      | .call => callLines s.kind e s.modules
      | .xor =>
        ("  " ++ Command.declareResult.text e.returns)
          :: (callLines s.kind e s.modules ++ ["  " ++ Command.returnResult.text e.returns])
      | .firstWins =>
        callLines s.kind e s.modules ++ ["  " ++ Command.returnDefault.text e.returns] := by
  have hcalls : (s.modules.map (.callIfEnabled · (.ofPolicy e.policy))).flatMap
      (Statement.lines s.kind e) = callLines s.kind e s.modules := List.flatMap_map _ _ _
  unfold bodyLines Dispatcher.ofEntry
  rw [List.flatMap_append, List.flatMap_append, hcalls]
  -- only what is declared before the calls and returned behind them depends on the policy
  cases e.policy with
  | call => simp
  | xor => simp [Statement.lines, Command.text, ← String.append_assoc]
  | firstWins => simp [Statement.lines, Command.text]

/-! ## Runs of guarded calls

The induction is over the modules, with the run so far generalized. For each policy the step decides
on the bit of one module; an entry point whose first answer wins ends the induction early. -/

section

variable {Word : Type} [Zero Word] [XorOp Word]

/-- What lines do in the dispatcher of a set, among the constants that are declared for it. -/
abbrev RunsIn (s : ModuleSet) (e : EntryPoint) (mask : Nat) (results : Call → Word) :
    List String → Execution Word → Execution Word → Prop :=
  Runs (constantLines s) s.kind.maskField e.returns mask results

variable {mask : Nat} {results : Call → Word} {x y : Execution Word} {modules : List ModuleInfo}
  {lines : List String}

/-- **One step**: the call of a module is made iff the bit of the module is in the mask. The guard
names the constant of the module, which has the bit of the module and no other. -/
theorem runsIn_callLines_cons_iff (hset : s.Consistent) (he : e ∈ EntryPoint.ofKind s.kind)
    {m : ModuleInfo} (hm : m ∈ s.modules) (hx : x.answer = none) :
    RunsIn s e mask results (callLines s.kind e (m :: modules) ++ lines) x y ↔
      if mask.testBit m.bit then
        ∃ x', (Command.call (.ofPolicy e.policy) (moduleCall s.kind e m)).run? results x = some x' ∧
          RunsIn s e mask results (callLines s.kind e modules ++ lines) x' y
      else RunsIn s e mask results (callLines s.kind e modules ++ lines) x y := by
  have hmeets : mask &&& 1 <<< m.bit ≠ 0 ↔ mask.testBit m.bit = true := by
    rw [Nat.one_shiftLeft, Nat.and_two_pow]
    cases mask.testBit m.bit <;> simp
  rw [callLines, List.flatMap_cons, ← callLines, lines_callIfEnabled]
  refine (runs_guarded_iff (fits_call he m) hx fun _ => declares_constantLines_iff hset hm).trans ?_
  rw [if_congr hmeets rfl rfl]
  rfl

variable (hset : s.Consistent) (he : e ∈ EntryPoint.ofKind s.kind)
  (hmodules : ∀ m ∈ modules, m ∈ s.modules) (hx : x.answer = none)

include hset he hmodules hx

/-- Where answers are dropped, the calls of the enabled modules are made. -/
theorem runsIn_callLines_call_iff (hpolicy : e.policy = .call) :
    RunsIn s e mask results (callLines s.kind e modules ++ lines) x y ↔
      RunsIn s e mask results lines
        { x with
          calls := x.calls ++ (modules.filter (mask.testBit ·.bit)).map (moduleCall s.kind e) }
        y := by
  induction modules generalizing x with
  | nil => simp [callLines]
  | cons m modules ih =>
    obtain ⟨hm, hmodules⟩ := List.forall_mem_cons.mp hmodules
    rw [runsIn_callLines_cons_iff hset he hm hx, List.filter_cons]
    split
    · simp [hpolicy, Action.ofPolicy, Command.run?, ih hmodules, hx]
    · exact ih hmodules hx

/-- Where answers are combined, those of the enabled modules are combined with the result. -/
theorem runsIn_callLines_xor_iff (hpolicy : e.policy = .xor) {result : Word}
    (hresult : x.result = some result) :
    RunsIn s e mask results (callLines s.kind e modules ++ lines) x y ↔
      RunsIn s e mask results lines
        { x with
          calls := x.calls ++ (modules.filter (mask.testBit ·.bit)).map (moduleCall s.kind e)
          result := some ((((modules.filter (mask.testBit ·.bit)).map (moduleCall s.kind e)).map
            results).foldl (· ^^^ ·) result) }
        y := by
  induction modules generalizing x result with
  | nil => simp [callLines, ← hresult]
  | cons m modules ih =>
    obtain ⟨hm, hmodules⟩ := List.forall_mem_cons.mp hmodules
    rw [runsIn_callLines_cons_iff hset he hm hx, List.filter_cons]
    split
    -- an enabled module: its answer goes into the result, and the rest goes on from there
    · simp only [hpolicy, Action.ofPolicy, Command.run?, hresult, Option.map_some,
        Option.some.injEq, exists_eq_left']
      let c := moduleCall s.kind e m
      rw [ih (x := { x with calls := x.calls ++ [c], result := some (result ^^^ results c) })
        hmodules hx rfl]
      simp [c]
    · exact ih hmodules hx hresult

/-- Where an answer is returned, the call of the first enabled module is made, and nothing after
it. -/
theorem runsIn_callLines_firstWins_iff (hpolicy : e.policy = .firstWins) :
    RunsIn s e mask results (callLines s.kind e modules ++ lines) x y ↔
      match ((modules.filter (mask.testBit ·.bit)).map (moduleCall s.kind e)).head? with
      | some c => y = { x with calls := x.calls ++ [c], answer := some (.word (results c)) }
      | none => RunsIn s e mask results lines x y := by
  induction modules with
  | nil => simp [callLines]
  | cons m modules ih =>
    obtain ⟨hm, hmodules⟩ := List.forall_mem_cons.mp hmodules
    rw [runsIn_callLines_cons_iff hset he hm hx, List.filter_cons]
    split
    · simp only [hpolicy, Action.ofPolicy, Command.run?, Option.some.injEq, exists_eq_left',
        List.map_cons, List.head?_cons]
      exact runs_iff_of_answer rfl
    · exact ih hmodules

end

section

variable {Word : Type} [Zero Word] [XorOp Word]

/-- **The run of a whole body**: its calls and its answer are what the policy makes of the calls of
the enabled modules. -/
theorem runsIn_bodyLines_iff (hset : s.Consistent) (he : e ∈ EntryPoint.ofKind s.kind) (mask : Nat)
    (results : Call → Word) (final : Execution Word) :
    RunsIn s e mask results (bodyLines s e) {} final ↔
      final = .merged e.policy results
        ((s.modules.filter (mask.testBit ·.bit)).map (moduleCall s.kind e)) := by
  have hvoid := returns_eq_void_iff he
  have hall : ∀ m ∈ s.modules, m ∈ s.modules := fun _ hm => hm
  have hstart : ({} : Execution Word).answer = none := rfl
  rw [bodyLines_eq]
  -- what surrounds the calls depends on the policy: a result is declared, combined and returned, or
  -- there is none
  cases hpolicy : e.policy with
  | call =>
    dsimp only
    rw [← List.append_nil (callLines s.kind e s.modules)]
    exact (runsIn_callLines_call_iff hset he hall hstart hpolicy).trans runs_nil_iff
  | xor =>
    have hreturns : e.returns ≠ "void" := by simp [hvoid, hpolicy]
    have hdeclare : Command.declareResult.run? results ({} : Execution Word) =
        some { result := some 0 } := rfl
    dsimp only
    rw [RunsIn, runs_command_iff (c := .declareResult) hreturns hstart, hdeclare]
    simp only [Option.some.injEq, exists_eq_left']
    refine (runsIn_callLines_xor_iff hset he hall rfl hpolicy rfl).trans ?_
    rw [RunsIn, runs_command_iff (c := .returnResult) hreturns rfl]
    simp only [Command.run?, Option.map_some, Option.some.injEq, exists_eq_left', runs_nil_iff]
    rfl
  | firstWins =>
    have hreturns : e.returns ≠ "void" := by simp [hvoid, hpolicy]
    refine (runsIn_callLines_firstWins_iff hset he hall hstart hpolicy).trans ?_
    cases (s.modules.filter (mask.testBit ·.bit)).map (moduleCall s.kind e) with
    | nil =>
      rw [List.head?_nil]
      dsimp only
      rw [RunsIn, runs_command_iff (c := .returnDefault) hreturns hstart]
      simp only [Command.run?, Option.some.injEq, exists_eq_left', runs_nil_iff]
      rfl
    | cons first calls => rfl

end

/-! ## Dispatchers in what is emitted

The body of a dispatcher is found in the text that is emitted, and the constants in its guards are
declared there. What is left open is the meaning of a call, and there two modules may be confused.
-/

/-- A dispatcher is a member function of the host, with its body between braces. -/
theorem Dispatcher.lines_ofEntry (s : ModuleSet) (e : EntryPoint) :
    (ofEntry s e).lines =
      [e.returns ++ " " ++ (Host.of s.kind).className ++ "::impl_" ++ e.name ++ "(" ++ e.parameters
          ++ ")", "\x7b"] ++ bodyLines s e ++ ["\x7d"] := by
  have hname : (Host.of s.kind).className ++ "::" ++ ("impl_" ++ e.name) =
      (Host.of s.kind).className ++ "::impl_" ++ e.name := by
    simp [← String.toList_inj]
  have hsignature : e.returns ++ " " ++ (Host.of s.kind).className ++ "::" ++ ("impl_" ++ e.name) =
      e.returns ++ " " ++ (Host.of s.kind).className ++ "::impl_" ++ e.name := by
    simp only [String.append_assoc] at hname ⊢
    rw [hname]
  unfold lines dispatcherName
  rw [← hsignature]
  rfl

/-- A dispatcher is emitted with the others of its set. -/
theorem Dispatcher.lines_infix_definitionLines (he : e ∈ EntryPoint.ofKind s.kind) :
    (ofEntry s e).lines <:+: definitionLines s := by
  have hmem : (ofEntry s e).lines ∈ (dispatchers s).map lines :=
    List.mem_map.mpr ⟨_, List.mem_map.mpr ⟨e, he, rfl⟩, rfl⟩
  unfold definitionLines
  -- the induction is over the dispatchers, of which ours is some one
  generalize (dispatchers s).map lines = all at hmem ⊢
  induction all with
  | nil => cases hmem
  | cons first all ih =>
    rcases List.mem_cons.mp hmem with rfl | hmem
    · cases all with
      | nil => rw [List.intercalate_singleton]
      | cons next all =>
        rw [List.intercalate_cons_cons, List.append_assoc]
        exact (List.prefix_append _ _).isInfix
    · rw [List.intercalate_cons_of_ne_nil (List.ne_nil_of_mem hmem)]
      exact (ih hmem).trans (List.suffix_append _ _).isInfix

/-- The bits of the modules of a set grow along the set. -/
theorem pairwise_bit_lt (hset : s.Consistent) (p : ModuleInfo → Bool) :
    (s.modules.filter p).Pairwise (·.bit < ·.bit) := by
  refine List.Pairwise.filter _ (List.pairwise_iff_getElem.mpr fun i j hi hj hij => ?_)
  rw [hset.bits i _ (List.getElem?_eq_getElem hi), hset.bits j _ (List.getElem?_eq_getElem hj)]
  exact hij

/-- Calls can answer what modules are to answer just where modules that are called alike are to
answer alike. -/
theorem exists_results_iff {Word : Type} [Zero Word] {modules : List ModuleInfo}
    {answers : ModuleInfo → Word} :
    (∃ results : Call → Word, ∀ m ∈ modules, results (moduleCall kind e m) = answers m) ↔
      ∀ m ∈ modules, ∀ m' ∈ modules,
        moduleCall kind e m = moduleCall kind e m' → answers m = answers m' := by
  constructor
  · rintro ⟨results, hresults⟩ m hm m' hm' hcall
    rw [← hresults m hm, ← hresults m' hm', hcall]
  · intro halike
    let call := fun m : { m // m ∈ modules } => moduleCall kind e m
    have hfactors : Function.FactorsThrough (fun m : { m // m ∈ modules } => answers m) call :=
      fun m m' => halike m m.2 m' m'.2
    exact ⟨Function.extend call (fun m => answers m) fun _ => 0,
      fun m hm => hfactors.extend_apply _ ⟨m, hm⟩⟩

/-- **A dispatcher implements the policy of its entry point**, as far as modules are told apart by
their calls. Each constant is declared once, with the bit of its module alone, and fits a word of 64
bits. The definitions that are emitted have the dispatcher, and its body has one run: all enabled
modules are called in the order of their bits, and their answers are combined where the policy says
so, or only the first one is called, and answers. Modules are called alike where they are free
functions with one symbol, or classes of one name; they answer independently where none are. -/
theorem runs_dispatcher_iff (Word : Type) [Zero Word] [XorOp Word] (hset : s.Consistent)
    (hcount : s.modules.length ≤ 64) (he : e ∈ EntryPoint.ofKind s.kind) (mask : Nat) :
    let call := moduleCall s.kind e
    let enabled := s.modules.filter (mask.testBit ·.bit)
    (∀ m ∈ s.modules, 1 <<< m.bit < 2 ^ 64 ∧
        ∀ value, Declares (constantLines s) (s.kind.constant m.name) value ↔ value = 1 <<< m.bit) ∧
      enabled.Pairwise (·.bit < ·.bit) ∧
      (∃ body,
        [e.returns ++ " " ++ (Host.of s.kind).className ++ "::impl_" ++ e.name ++ "("
            ++ e.parameters ++ ")", "\x7b"] ++ body ++ ["\x7d"] <:+: definitionLines s ∧
          ∀ (results : Call → Word) (final : Execution Word),
            Runs (constantLines s) s.kind.maskField e.returns mask results body {} final ↔
              final = .merged e.policy results (enabled.map call)) ∧
      (∀ m m', call m = call m' ↔
        m.data.legacy = true ∧ m'.data.legacy = true ∧
            m.symbol s.kind e.name = m'.symbol s.kind e.name ∨
          m.data.legacy = false ∧ m'.data.legacy = false ∧
            m.data.className = m'.data.className) ∧
      ∀ answers : ModuleInfo → Word,
        (∃ results : Call → Word, ∀ m ∈ enabled, results (call m) = answers m) ↔
          ∀ m ∈ enabled, ∀ m' ∈ enabled, call m = call m' → answers m = answers m' := by
  intro call enabled
  refine ⟨fun m hm => ⟨hset.mask_lt hcount hm, fun _ => declares_constantLines_iff hset hm⟩,
    pairwise_bit_lt hset _, ⟨bodyLines s e, ?_, fun results final => ?_⟩,
    fun m m' => moduleCall_eq_iff, fun answers => exists_results_iff⟩
  -- the body is what stands between the braces of the emitted lines, and its runs are counted there
  · rw [← Dispatcher.lines_ofEntry]
    exact Dispatcher.lines_infix_definitionLines he
  · exact runsIn_bodyLines_iff hset he mask results final

/-- A set of three prefetchers, the second of which is made of free functions. -/
def mixedPrefetchers : ModuleSet :=
  [("stride", false), ("next_line", true), ("spatial", false)].foldl
    (fun s (name, legacy) => s.insert none
      ⟨name, ⟨"prefetcher/" ++ name⟩, name, legacy, Module.symbols .prefetcher name⟩)
    (.empty .prefetcher)

/-- The metadata that their calls answer. -/
def mixedMetadata (c : Call) : UInt32 :=
  if c.function = "spatial::prefetcher_cache_operate" then 0xF0F0 else 0x00FF

/-- The last two are enabled, and their metadata is combined. -/
theorem runs_mixedPrefetchers :
    let e : EntryPoint := EntryPoint.prefetcher[1]
    let arguments := ["addr", "ip", "cache_hit", "useful_prefetch", "type", "metadata_in"]
    mixedPrefetchers.Consistent ∧ mixedPrefetchers.modules.length ≤ 64 ∧
      e ∈ EntryPoint.ofKind mixedPrefetchers.kind ∧
      ∃ body,
        ["uint32_t CACHE::impl_prefetcher_cache_operate(" ++ e.parameters ++ ")", "\x7b"] ++ body
            ++ ["\x7d"] <:+: definitionLines mixedPrefetchers ∧
          ∀ final,
            Runs (constantLines mixedPrefetchers) "pref_type" "uint32_t" 0b110 mixedMetadata body {}
                final ↔
              final = {
                calls := [⟨"pref_next_line_prefetcher_cache_operate", arguments⟩,
                  ⟨"spatial::prefetcher_cache_operate", "this" :: arguments⟩]
                result := some 0xF00F
                answer := some (.word 0xF00F) } := by
  intro e arguments
  -- a set that is built by insertions is consistent
  have hset : mixedPrefetchers.Consistent :=
    List.foldlRecOn (motive := ModuleSet.Consistent) _ _ (ModuleSet.consistent_empty _)
      fun _ h _ _ => h.insert _ _
  have hcount : mixedPrefetchers.modules.length ≤ 64 := by decide +kernel
  have he : e ∈ EntryPoint.ofKind mixedPrefetchers.kind := by decide +kernel
  have hmerged : Execution.merged e.policy mixedMetadata
      ((mixedPrefetchers.modules.filter (Nat.testBit 0b110 ·.bit)).map
        (moduleCall mixedPrefetchers.kind e)) =
      { calls := [⟨"pref_next_line_prefetcher_cache_operate", arguments⟩,
          ⟨"spatial::prefetcher_cache_operate", "this" :: arguments⟩]
        result := some 0xF00F
        answer := some (.word 0xF00F) } := by
    decide +kernel
  obtain ⟨_, _, ⟨body, hbody, hruns⟩, _, _⟩ :=
    runs_dispatcher_iff UInt32 hset hcount he 0b110
  refine ⟨hset, hcount, he, body, hbody, fun final => ?_⟩
  rw [← hmerged]
  exact hruns mixedMetadata final

/-- A set of two prefetchers, which are found in `prefetcher/a/next_line` and in
`prefetcher/b/next_line`. A class has the name of its directory, so both classes have one name. -/
def sameClassPrefetchers : ModuleSet :=
  [("prefetcher/a/next_line", "prefetcherDaDnext_line"),
      ("prefetcher/b/next_line", "prefetcherDbDnext_line")].foldl
    (fun s (path, name) => s.insert none
      ⟨name, ⟨path⟩, "next_line", false, Module.symbols .prefetcher name⟩)
    (.empty .prefetcher)

/-- Two enabled modules with different names are not both called: there is one call, and it is made
twice. So their answers, which are combined, are one and the same, and what is returned is zero. -/
theorem call_twice_of_sameClass :
    let e : EntryPoint := EntryPoint.prefetcher[1]
    sameClassPrefetchers.Consistent ∧
      sameClassPrefetchers.modules.map (·.name) =
        ["prefetcherDaDnext_line", "prefetcherDbDnext_line"] ∧
      e ∈ EntryPoint.ofKind sameClassPrefetchers.kind ∧ e.policy = .xor ∧
      ∀ (results : Call → UInt32) (final : Execution UInt32),
        Runs (constantLines sameClassPrefetchers) sameClassPrefetchers.kind.maskField e.returns 0b11
            results (bodyLines sameClassPrefetchers e) {} final →
          ¬ final.calls.Nodup ∧
            ∀ answer answer' : UInt32, answer ≠ answer' →
              final.answer ≠ some (.word (answer ^^^ answer')) := by
  intro e
  have hset : sameClassPrefetchers.Consistent :=
    List.foldlRecOn (motive := ModuleSet.Consistent) _ _ (ModuleSet.consistent_empty _)
      fun _ h _ _ => h.insert _ _
  have he : e ∈ EntryPoint.ofKind sameClassPrefetchers.kind := by decide +kernel
  refine ⟨hset, by decide +kernel, he, rfl, fun results final hruns => ?_⟩
  have hfinal := (runsIn_bodyLines_iff hset he 0b11 results final).mp hruns
  -- both modules are enabled, and their calls are one and the same
  obtain ⟨c, hcalls⟩ : ∃ c, (sameClassPrefetchers.modules.filter (Nat.testBit 0b11 ·.bit)).map
      (moduleCall sameClassPrefetchers.kind e) = [c, c] :=
    ⟨⟨"next_line::prefetcher_cache_operate", "this" :: e.params.map (·.name)⟩, by decide +kernel⟩
  rw [hcalls] at hfinal
  subst hfinal
  refine ⟨by simp [e, EntryPoint.prefetcher, Execution.merged], fun answer answer' hne h => ?_⟩
  -- one answer combined with itself is nothing
  have hzero : answer ^^^ answer' = 0 := by
    simpa [e, EntryPoint.prefetcher, Execution.merged, eq_comm] using h
  exact hne (by simpa using hzero)

end MemoryHierarchy.Dispatch
