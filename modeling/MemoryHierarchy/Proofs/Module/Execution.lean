import MemoryHierarchy.Module.Dispatch
import MemoryHierarchy.Proofs.Module.Identifier
import MemoryHierarchy.Proofs.Module.Set

/-!
# What the text of a dispatcher does

A dispatcher is emitted as text, and here the text gets a meaning of its own, without the data that
it is written from. A line holds a command, or the guard of the command on the line behind it. A
guard names a constant, whose value stands in the lines that declare constants (`Declares`). Most
commands are about a call, which names a function and identifiers for its arguments (`Call`); so
what is called is what is written, and two modules are told apart by a dispatcher only as far as
their calls are.

`Runs` goes through the lines of a body. Nothing follows a return, and a result is there only once
it is declared. The text can be read in one way only: a command is known by its end and its
beginning (`Command.text_injective`), and a guard is none. So a line that is run does one thing
(`runs_command_iff`, `runs_guarded_iff`). -/

namespace MemoryHierarchy.Dispatch

/-! ## Calls

A call is read from its text: the function stands before the last parenthesis that opens, and the
arguments behind it. Arguments are identifiers here, so none of them brings a parenthesis of its
own. -/

/-- A list is cut at the last place of an item in one way only. -/
theorem append_cons_inj_of_not_mem {α : Type} {x : α} {xs xs' ys ys' : List α} (hy : x ∉ ys)
    (hy' : x ∉ ys') (h : xs ++ x :: ys = xs' ++ x :: ys') : xs = xs' ∧ ys = ys' := by
  rcases List.append_eq_append_iff.mp h with ⟨rest, rfl, hrest⟩ | ⟨rest, rfl, hrest⟩
  · cases rest with
    | nil => simpa using hrest
    | cons first rest =>
      obtain ⟨rfl, rfl⟩ := List.cons.inj hrest
      exact absurd (List.mem_append_right _ List.mem_cons_self) hy
  · cases rest with
    | nil => simpa using hrest.symm
    | cons first rest =>
      obtain ⟨rfl, rfl⟩ := List.cons.inj hrest
      exact absurd (List.mem_append_right _ List.mem_cons_self) hy'


/-- A call in generated code: a function, and what stands for its arguments. -/
structure Call where
  function : String
  arguments : List String
deriving DecidableEq, Repr

namespace Call

/-- The text of a call. -/
def text (c : Call) : String := c.function ++ "(" ++ ", ".intercalate c.arguments ++ ")"

/-- Identifiers stand for the arguments. Nothing is asked of the function. -/
def WellFormed (c : Call) : Prop := ∀ a ∈ c.arguments, IsIdentifier a

instance (c : Call) : Decidable c.WellFormed := List.decidableBAll _ _

end Call

namespace Call

/-- No parenthesis opens among the arguments. -/
theorem WellFormed.open_not_mem {c : Call} (hc : c.WellFormed) :
    '(' ∉ (", ".intercalate c.arguments).toList := by
  intro hmem
  rcases mem_toList_intercalate hmem with hseparator | ⟨a, ha, hopen⟩
  · exact absurd hseparator (by decide)
  · exact absurd ((hc a ha).word '(' hopen) (by decide)

/-- **The text of a call gives the call**: the arguments are behind the last parenthesis that
opens. -/
theorem text_injective {c c' : Call} (hc : c.WellFormed) (hc' : c'.WellFormed)
    (h : c.text = c'.text) : c = c' := by
  have htext := congrArg String.toList h
  simp only [text, String.toList_append, List.append_assoc] at htext
  have hclosed : ∀ d : Call, d.function.toList ++ ("(".toList ++
      ((", ".intercalate d.arguments).toList ++ ")".toList)) =
        d.function.toList ++ '(' :: (", ".intercalate d.arguments).toList ++ [')'] := by simp
  rw [hclosed, hclosed] at htext
  obtain ⟨hfunction, harguments⟩ :=
    append_cons_inj_of_not_mem hc.open_not_mem hc'.open_not_mem (List.append_cancel_right htext)
  obtain ⟨function, arguments⟩ := c
  rw [mk.injEq]
  exact ⟨String.ext hfunction, intercalate_injective_of_isIdentifier hc hc'
    (String.ext harguments)⟩

end Call

/-! ## Commands

A line that acts makes a call, combines its answer with the result, or returns it. The type of the
function decides which of these are possible, which keeps one text from being two commands. -/

/-- What a dispatcher can be told to do. -/
inductive Command where
  /-- A result is declared, and is zero. -/
  | declareResult
  /-- A call is made, and something is done with its answer. -/
  | call (action : Action) (c : Call)
  /-- The result is returned. -/
  | returnResult
  /-- The default value is returned. -/
  | returnDefault
deriving DecidableEq, Repr

namespace Command

/-- What stands before a call whose answer is dropped, combined with the result, or returned. -/
def head : Action → String
  | .discard => ""
  | .combine => "result ^= "
  | .answer => "return "

/-- The text of a command in a function of the given type. -/
def text (type : String) : Command → String
  | declareResult => type ++ " result = 0;"
  | call action c => head action ++ c.text ++ ";"
  | returnResult => "return result;"
  | returnDefault => "return \x7b\x7d;"

/-- The commands of a function of the given type. One that returns nothing makes calls; one that
returns something has a result, and drops no answer. -/
def Fits (type : String) : Command → Prop
  | call .discard c => type = "void" ∧ c.WellFormed
  | call _ c => type ≠ "void" ∧ c.WellFormed
  | declareResult | returnResult | returnDefault => type ≠ "void"

/-- The character before the semicolon. -/
def lastChar : Command → Char
  | declareResult => '0'
  | call .. => ')'
  | returnResult => 't'
  | returnDefault => '\x7d'

theorem exists_text_eq (type : String) (c : Command) :
    ∃ front, (c.text type).toList = front ++ [c.lastChar, ';'] := by
  cases c with
  | declareResult => exact ⟨type.toList ++ " result = ".toList, by simp [text, lastChar]⟩
  | call action c =>
    exact ⟨(head action).toList ++ c.function.toList ++ "(".toList
      ++ (", ".intercalate c.arguments).toList, by simp [text, lastChar, Call.text]⟩
  | returnResult => exact ⟨"return resul".toList, by simp [text, lastChar]⟩
  | returnDefault => exact ⟨"return \x7b".toList, by simp [text, lastChar]⟩

theorem wellFormed_of_fits {type : String} {action : Action} {c : Call}
    (h : (call action c).Fits type) : c.WellFormed := by
  cases action <;> exact h.2

/-- What is done with an answer shows at the beginning of a call. Where answers are dropped, no
other command is a call; and to combine and to return differ in the third character. -/
theorem action_eq_of_text_eq {type : String} {action action' : Action} {c c' : Call}
    (hc : (call action c).Fits type) (hc' : (call action' c').Fits type)
    (h : (call action c).text type = (call action' c').text type) : action = action' := by
  have hheads : ∀ d d' : Call, "result ^= " ++ d.text ++ ";" ≠ "return " ++ d'.text ++ ";" := by
    intro d d' heq
    have hthird := congrArg (fun text => (text.toList.drop 2).head?) heq
    simp at hthird
  -- answers are dropped just where nothing is returned, so the type keeps that action apart
  cases action <;> cases action'
  · rfl
  · exact absurd hc.1 hc'.1
  · exact absurd hc.1 hc'.1
  · exact absurd hc'.1 hc.1
  · rfl
  · exact absurd h (hheads c c')
  · exact absurd hc'.1 hc.1
  · exact absurd h.symm (hheads c' c)
  · rfl

/-- **The text of a command gives the command.** Its end says whether it is a call. -/
theorem text_injective {type : String} {c c' : Command} (hc : c.Fits type) (hc' : c'.Fits type)
    (h : c.text type = c'.text type) : c = c' := by
  -- the character before the semicolon tells calls from the other commands
  have hlast : c.lastChar = c'.lastChar := by
    obtain ⟨front, hfront⟩ := c.exists_text_eq type
    obtain ⟨front', hfront'⟩ := c'.exists_text_eq type
    have htext := congrArg String.toList h
    rw [hfront, hfront'] at htext
    exact (List.cons.inj (List.append_inj_right' htext rfl)).1
  cases c with
  | call action c =>
    cases c' with
    | call action' c' =>
      obtain rfl := action_eq_of_text_eq hc hc' h
      have htext : head action ++ c.text ++ ";" = head action ++ c'.text ++ ";" := h
      rw [String.append_left_inj, String.append_right_inj] at htext
      rw [Call.text_injective (wellFormed_of_fits hc) (wellFormed_of_fits hc') htext]
    | _ => exact absurd hlast (by simp [lastChar])
  | _ => cases c' <;> first | rfl | exact absurd hlast (by simp [lastChar])

end Command

/-! ## Constants

A guard names a constant. The value of a constant is what the lines of the same text declare it to
be, so a guard has no meaning where a constant is missing or declared twice. -/

/-- The lines of a namespace declare a constant in it: one of them gives the place of the only bit
that is set in its value. -/
def Declares (lines : List String) (constant : String) (value : Nat) : Prop :=
  ∃ space declarations name bit,
    lines = ["namespace " ++ space, "\x7b"] ++ declarations ++ ["\x7d  // namespace " ++ space] ∧
    "inline constexpr unsigned long long " ++ name ++ " = 1ull << " ++ toString bit ++ ";" ∈
      declarations ∧
    constant = space ++ "::" ++ name ∧ value = 1 <<< bit

/-- The line of a declaration gives the name and the place: the place is behind the last blank. -/
theorem declaration_injective {name name' : String} {bit bit' : Nat}
    (h : "inline constexpr unsigned long long " ++ name ++ " = 1ull << " ++ toString bit ++ ";" =
      "inline constexpr unsigned long long " ++ name' ++ " = 1ull << " ++ toString bit' ++ ";") :
    name = name' ∧ bit = bit' := by
  -- digits have no blank among them, so the last blank stands before the place
  have hdigits : ∀ n : Nat, ' ' ∉ Nat.toDigits 10 n := by
    intro n hmem
    exact absurd (Nat.isDigit_of_mem_toDigits (by decide) (Nat.le_refl 10) hmem) (by decide)
  have htext := congrArg String.toList h
  have hsplit : ∀ (name : String) (bit : Nat),
      ("inline constexpr unsigned long long " ++ name ++ " = 1ull << " ++ toString bit
        ++ ";").toList = "inline constexpr unsigned long long ".toList ++
          ((name.toList ++ " = 1ull <<".toList) ++ ' ' :: Nat.toDigits 10 bit) ++ [';'] := by
    intro name bit
    simp
  rw [hsplit, hsplit] at htext
  obtain ⟨hname, hbit⟩ := append_cons_inj_of_not_mem (hdigits bit) (hdigits bit')
    (List.append_cancel_left (List.append_cancel_right htext))
  refine ⟨String.ext (List.append_cancel_right hname), ?_⟩
  rw [← Nat.ofDigitChars_ten_toDigits (n := bit), hbit, Nat.ofDigitChars_ten_toDigits]

/-- **Each constant of a set is declared once**, with the bit of its module. Names in a set are
distinct, and so are the constants that are made of them. -/
theorem declares_constantLines_iff {s : ModuleSet} (hset : s.Consistent) {m : ModuleInfo}
    (hm : m ∈ s.modules) {value : Nat} :
    Declares (constantLines s) (s.kind.constant m.name) value ↔ value = 1 <<< m.bit := by
  constructor
  · rintro ⟨space, declarations, name, bit, hlines, hdeclared, hconstant, rfl⟩
    obtain ⟨hspace, hrest⟩ := List.cons.inj hlines
    rw [String.append_right_inj] at hspace
    subst hspace
    rw [ModuleKind.constant, String.append_right_inj] at hconstant
    have hdeclarations : s.constants.map MaskConstant.line = declarations :=
      List.append_cancel_right (List.cons.inj hrest).2
    rw [← hdeclarations, ModuleSet.constants, List.map_map, List.mem_map] at hdeclared
    -- the line that declares the constant is that of a module of this name, of which there is one
    obtain ⟨m', hm', hline⟩ := hdeclared
    obtain ⟨hname, rfl⟩ : m'.name = name ∧ m'.bit = bit := declaration_injective hline
    rw [hset.eq_of_name_eq hm hm' (hconstant.trans hname.symm)]
  · rintro rfl
    exact ⟨s.kind.constantSpace, s.constants.map MaskConstant.line, m.name, m.bit, rfl,
      List.mem_map.mpr ⟨⟨m.name, m.bit⟩, List.mem_map.mpr ⟨m, hm, rfl⟩, rfl⟩, rfl, rfl⟩

/-! ## Runs

A body is run line by line, with the list of calls made and the result so far. A line that is
neither a guard nor a command has no run, so that a body runs is itself a statement about its lines.
-/

/-- What a dispatcher returns. -/
inductive Answer (Word : Type) where
  | word (value : Word)
  | default
deriving DecidableEq, Repr

/-- A run of a dispatcher, so far. -/
structure Execution (Word : Type) where
  /-- The calls that have been made, in order. -/
  calls : List Call := []
  /-- The result, once it is declared. -/
  result : Option Word := none
  /-- What has been returned; nothing is done after that. -/
  answer : Option (Answer Word) := none
deriving DecidableEq, Repr

section

variable {Word : Type} [Zero Word] [XorOp Word]

/-- What a command does, where `results` says what each call answers. A result that is not declared
can neither be combined nor returned. -/
def Command.run? (results : Call → Word) (x : Execution Word) : Command → Option (Execution Word)
  | declareResult => some { x with result := some 0 }
  | call .discard c => some { x with calls := x.calls ++ [c] }
  | call .combine c => x.result.map fun result =>
    { x with calls := x.calls ++ [c], result := some (result ^^^ results c) }
  | call .answer c => some { x with calls := x.calls ++ [c], answer := some (.word (results c)) }
  | returnResult => x.result.map fun result => { x with answer := some (.word result) }
  | returnDefault => some { x with answer := some .default }

/-- The line that guards a command. -/
def guardText (field constant : String) : String :=
  "  if ((" ++ field ++ " & " ++ constant ++ ") != 0)"

/-- What the lines of a body do in a function of the given type. The mask is held by the member
`field`, and constants have the values that `constants` declares. -/
inductive Runs (constants : List String) (field type : String) (mask : Nat)
    (results : Call → Word) : List String → Execution Word → Execution Word → Prop
  /-- There are no more lines. -/
  | done (x : Execution Word) : Runs constants field type mask results [] x x
  /-- Lines behind a return do nothing. -/
  | returned {x : Execution Word} {answer : Answer Word} (lines : List String)
      (hanswer : x.answer = some answer) : Runs constants field type mask results lines x x
  /-- A command is run. -/
  | command {x x' y : Execution Word} {lines : List String} (c : Command) (hfits : c.Fits type)
      (hanswer : x.answer = none) (hrun : c.run? results x = some x')
      (hrest : Runs constants field type mask results lines x' y) :
      Runs constants field type mask results (("  " ++ c.text type) :: lines) x y
  /-- The mask meets a constant, and the command behind the guard is run. -/
  | met {x x' y : Execution Word} {lines : List String} {constant : String} {value : Nat}
      (c : Command) (hfits : c.Fits type) (hanswer : x.answer = none)
      (hvalue : Declares constants constant value) (hmeets : mask &&& value ≠ 0)
      (hrun : c.run? results x = some x')
      (hrest : Runs constants field type mask results lines x' y) :
      Runs constants field type mask results
        (guardText field constant :: ("    " ++ c.text type) :: lines) x y
  /-- The mask does not meet a constant, and the command behind the guard is passed over. -/
  | passed {x y : Execution Word} {lines : List String} {constant : String} {value : Nat}
      (c : Command) (hfits : c.Fits type) (hanswer : x.answer = none)
      (hvalue : Declares constants constant value) (hmisses : mask &&& value = 0)
      (hrest : Runs constants field type mask results lines x y) :
      Runs constants field type mask results
        (guardText field constant :: ("    " ++ c.text type) :: lines) x y

/-- A guard is no command: it does not end with a semicolon. -/
theorem guardText_ne_command (field constant type : String) (c : Command) :
    guardText field constant ≠ "  " ++ c.text type := by
  intro h
  obtain ⟨front, hfront⟩ := c.exists_text_eq type
  have hguard : (guardText field constant).toList =
      ("  if ((" ++ field ++ " & " ++ constant ++ ") != 0").toList ++ [')'] := by simp [guardText]
  have hcommand :
      ("  " ++ c.text type).toList = ("  ".toList ++ front ++ [c.lastChar]) ++ [';'] := by
    simp [hfront]
  rw [h, hcommand] at hguard
  exact absurd (List.append_inj_right' hguard rfl) (by decide)

theorem guardText_injective {field constant constant' : String}
    (h : guardText field constant = guardText field constant') : constant = constant' := by
  unfold guardText at h
  rwa [String.append_left_inj, String.append_right_inj] at h

variable {constants : List String} {field type : String} {mask : Nat} {results : Call → Word}
  {lines : List String} {x y : Execution Word}

/-- Where something has been returned, the run is over. -/
theorem runs_iff_of_answer {answer : Answer Word} (hx : x.answer = some answer) :
    Runs constants field type mask results lines x y ↔ y = x := by
  constructor
  · intro hruns
    cases hruns with
    | done => rfl
    | returned => rfl
    | command _ _ hnone => exact absurd (hx.symm.trans hnone) (Option.some_ne_none _)
    | met _ _ hnone => exact absurd (hx.symm.trans hnone) (Option.some_ne_none _)
    | passed _ _ hnone => exact absurd (hx.symm.trans hnone) (Option.some_ne_none _)
  · rintro rfl
    exact .returned lines hx

/-- Without lines nothing is done. -/
theorem runs_nil_iff : Runs constants field type mask results [] x y ↔ y = x := by
  constructor
  · intro hruns
    cases hruns <;> rfl
  · rintro rfl
    exact .done y

/-- **A line that holds a command does what the command does**, and nothing else. -/
theorem runs_command_iff {c : Command} (hfits : c.Fits type) (hx : x.answer = none) :
    Runs constants field type mask results (("  " ++ c.text type) :: lines) x y ↔
      ∃ x', c.run? results x = some x' ∧ Runs constants field type mask results lines x' y := by
  constructor
  · intro hruns
    generalize hline : "  " ++ c.text type = line at hruns
    cases hruns with
    | returned _ hanswer => exact absurd (hanswer.symm.trans hx) (Option.some_ne_none _)
    | command c' hfits' _ hrun hrest =>
      rw [String.append_right_inj] at hline
      rw [Command.text_injective hfits hfits' hline]
      exact ⟨_, hrun, hrest⟩
    | met => exact absurd hline.symm (guardText_ne_command _ _ _ _)
    | passed => exact absurd hline.symm (guardText_ne_command _ _ _ _)
  · rintro ⟨x', hrun, hrest⟩
    exact .command c hfits hx hrun hrest

/-- **A guarded command is run iff the mask meets the constant of the guard.** The constant has one
value in the lines that declare it, and the mask is held against that value. -/
theorem runs_guarded_iff {c : Command} (hfits : c.Fits type) (hx : x.answer = none)
    {constant : String} {value : Nat}
    (hvalue : ∀ other, Declares constants constant other ↔ other = value) :
    Runs constants field type mask results
        (guardText field constant :: ("    " ++ c.text type) :: lines) x y ↔
      if mask &&& value ≠ 0 then
        ∃ x', c.run? results x = some x' ∧ Runs constants field type mask results lines x' y
      else Runs constants field type mask results lines x y := by
  constructor
  · intro hruns
    generalize hguard : guardText field constant = guard at hruns
    generalize hline : "    " ++ c.text type = line at hruns
    -- of the ways in which a line runs, only those of a guard are left
    cases hruns with
    | returned _ hanswer => exact absurd (hanswer.symm.trans hx) (Option.some_ne_none _)
    | command => exact absurd hguard (guardText_ne_command _ _ _ _)
    | met c' hfits' _ hvalue' hmeets hrun hrest =>
      obtain rfl := guardText_injective hguard
      obtain rfl := (hvalue _).mp hvalue'
      rw [String.append_right_inj] at hline
      rw [if_pos hmeets, Command.text_injective hfits hfits' hline]
      exact ⟨_, hrun, hrest⟩
    | passed c' hfits' _ hvalue' hmisses hrest =>
      obtain rfl := guardText_injective hguard
      obtain rfl := (hvalue _).mp hvalue'
      rw [if_neg (not_not_intro hmisses)]
      exact hrest
  · intro hruns
    by_cases hmeets : mask &&& value ≠ 0
    · rw [if_pos hmeets] at hruns
      obtain ⟨x', hrun, hrest⟩ := hruns
      exact .met c hfits hx ((hvalue value).mpr rfl) hmeets hrun hrest
    · rw [if_neg hmeets] at hruns
      exact .passed c hfits hx ((hvalue value).mpr rfl) (not_not.mp hmeets) hruns

/-- What a policy makes of some calls, which are those of the enabled modules in their order. -/
def Execution.merged (policy : MergePolicy) (results : Call → Word) (calls : List Call) :
    Execution Word :=
  match policy, calls with
  | .call, _ => { calls }
  | .xor, _ =>
    let result := (calls.map results).foldl (· ^^^ ·) 0
    { calls, result := some result, answer := some (.word result) }
  | .firstWins, first :: _ => { calls := [first], answer := some (.word (results first)) }
  | .firstWins, [] => { answer := some .default }

end

end MemoryHierarchy.Dispatch
