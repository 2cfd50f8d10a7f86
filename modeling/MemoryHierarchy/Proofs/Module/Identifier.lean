import MemoryHierarchy.Proofs.Module.Naming

/-!
# Which names of modules are identifiers

The name of a module is pasted into generated code where an identifier is expected. All of its
characters can stand in one, whatever its directory is called. What it begins with is up to the
first directory below the module root, though: a digit in front is kept, and then the name is no
identifier (`Module.isIdentifier_nameOf_iff`). Behind something that is one, a name does no harm.
-/

namespace MemoryHierarchy

/-! ## Identifiers

Identifiers are words that do not begin with a digit. Words are closed under being joined, and a
word in front of another character can be read off a text. -/

/-- A character that can stand in an identifier. -/
def IsWordChar (c : Char) : Prop := c.isAlphanum = true ∨ c = '_'

instance : DecidablePred IsWordChar := fun c => inferInstanceAs (Decidable (c.isAlphanum ∨ c = '_'))

/-- A text whose characters can all stand in an identifier. -/
def IsWord (s : String) : Prop := ∀ c ∈ s.toList, IsWordChar c

instance (s : String) : Decidable (IsWord s) := List.decidableBAll _ _

/-- A text whose first character is a digit. -/
def BeginsWithDigit (s : String) : Prop := s.toList.head?.any Char.isDigit = true

instance (s : String) : Decidable (BeginsWithDigit s) := inferInstanceAs (Decidable (_ = true))

/-- Letters, digits and underscores, the first of which is no digit. Reserved words are not
excluded. -/
structure IsIdentifier (s : String) : Prop where
  ne_blank : s ≠ ""
  word : IsWord s
  head : ¬BeginsWithDigit s

theorem isIdentifier_iff {s : String} :
    IsIdentifier s ↔ s ≠ "" ∧ IsWord s ∧ ¬BeginsWithDigit s :=
  ⟨fun h => ⟨h.ne_blank, h.word, h.head⟩, fun ⟨hne, hword, hhead⟩ => ⟨hne, hword, hhead⟩⟩

instance (s : String) : Decidable (IsIdentifier s) := decidable_of_iff' _ isIdentifier_iff

/-- An identifier behind those of the namespaces it is in. -/
inductive IsQualified : String → Prop
  | plain {s : String} (h : IsIdentifier s) : IsQualified s
  | inside {space s : String} (hspace : IsIdentifier space) (h : IsQualified s) :
      IsQualified (space ++ "::" ++ s)

theorem IsWord.append {s t : String} (hs : IsWord s) (ht : IsWord t) : IsWord (s ++ t) := by
  intro c hc
  rw [String.toList_append, List.mem_append] at hc
  exact hc.elim (hs c) (ht c)

/-- What can stand in an identifier can stand behind one. -/
theorem IsIdentifier.append {s t : String} (hs : IsIdentifier s) (ht : IsWord t) :
    IsIdentifier (s ++ t) := by
  have hne : s.toList ≠ [] := fun hnil => hs.ne_blank (String.toList_eq_nil_iff.mp hnil)
  refine ⟨?_, hs.word.append ht, ?_⟩
  · intro hblank
    have hnil := congrArg String.toList hblank
    rw [String.toList_append, String.toList_empty, List.append_eq_nil_iff] at hnil
    exact hne hnil.1
  · rw [BeginsWithDigit, String.toList_append, List.head?_append_of_ne_nil _ hne]
    exact hs.head

/-- A word ends where a character follows that cannot stand in one. -/
theorem IsWord.takeWhile_append {s : String} (hs : IsWord s) {rest : List Char}
    (hrest : ∀ c ∈ rest.head?, ¬IsWordChar c) :
    (s.toList ++ rest).takeWhile (fun c => decide (IsWordChar c)) = s.toList := by
  have hnone : rest.takeWhile (fun c => decide (IsWordChar c)) = [] := by
    cases rest with
    | nil => rfl
    | cons c rest => simpa using hrest c rfl
  rw [List.takeWhile_append_of_pos fun c hc => decide_eq_true (hs c hc), hnone, List.append_nil]

/-- So words are told apart in front of such characters. -/
theorem IsWord.append_inj {s s' : String} (hs : IsWord s) (hs' : IsWord s') {rest rest' : List Char}
    (hrest : ∀ c ∈ rest.head?, ¬IsWordChar c) (hrest' : ∀ c ∈ rest'.head?, ¬IsWordChar c)
    (heq : s.toList ++ rest = s'.toList ++ rest') : s = s' ∧ rest = rest' := by
  have hword : s.toList = s'.toList := by
    rw [← hs.takeWhile_append hrest, heq, hs'.takeWhile_append hrest']
  rw [hword, List.append_cancel_left_eq] at heq
  exact ⟨String.ext hword, heq⟩

/-! ## Joined texts

The parts of a joined text can be told apart when what stands between them begins with a character
that none of them has. -/

/-- A character of joined texts is one of a part, or of what stands between the parts. -/
theorem mem_toList_intercalate {separator : String} {parts : List String} {c : Char}
    (hc : c ∈ (separator.intercalate parts).toList) :
    c ∈ separator.toList ∨ ∃ part ∈ parts, c ∈ part.toList := by
  induction parts with
  | nil =>
    rw [String.intercalate_nil] at hc
    exact absurd hc List.not_mem_nil
  | cons part parts ih =>
    by_cases hparts : parts = []
    · subst hparts
      rw [String.intercalate_singleton] at hc
      exact .inr ⟨part, List.mem_singleton_self _, hc⟩
    · rw [String.intercalate_cons_of_ne_nil hparts] at hc
      simp only [String.toList_append, List.mem_append] at hc
      -- in the first part, in the separator behind it, or further on
      rcases hc with (hpart | hseparator) | hrest
      · exact .inr ⟨part, List.mem_cons_self, hpart⟩
      · exact .inl hseparator
      · obtain hseparator | ⟨other, hother, hmem⟩ := ih hrest
        · exact .inl hseparator
        · exact .inr ⟨other, List.mem_cons_of_mem _ hother, hmem⟩

/-- What is behind the first of some joined texts. -/
def joinedRest (rest : List String) : List Char :=
  if rest = [] then [] else ", ".toList ++ (", ".intercalate rest).toList

theorem toList_intercalate_cons (first : String) (rest : List String) :
    (", ".intercalate (first :: rest)).toList = first.toList ++ joinedRest rest := by
  by_cases hrest : rest = []
  · subst hrest
    rw [String.intercalate_singleton, joinedRest, if_pos rfl, List.append_nil]
  · rw [String.intercalate_cons_of_ne_nil hrest, joinedRest, if_neg hrest, String.toList_append,
      String.toList_append, List.append_assoc]

/-- No character of an identifier follows the first of some joined texts. -/
theorem not_isWordChar_head?_joinedRest (rest : List String) :
    ∀ c ∈ (joinedRest rest).head?, ¬IsWordChar c := by
  unfold joinedRest
  split
  · simp
  · rintro c ⟨⟩
    decide

/-- Identifiers that are joined can be told apart. -/
theorem intercalate_injective_of_isIdentifier {names names' : List String}
    (hnames : ∀ s ∈ names, IsIdentifier s) (hnames' : ∀ s ∈ names', IsIdentifier s)
    (h : ", ".intercalate names = ", ".intercalate names') : names = names' := by
  have hne : ∀ {s : String}, IsIdentifier s → s.toList ≠ [] :=
    fun hs hnil => hs.ne_blank (String.toList_eq_nil_iff.mp hnil)
  induction names generalizing names' with
  | nil =>
    cases names' with
    | nil => rfl
    | cons first' rest' =>
      have htext := congrArg String.toList h
      rw [toList_intercalate_cons, String.intercalate_nil, String.toList_empty] at htext
      exact absurd (List.append_eq_nil_iff.mp htext.symm).1
        (hne (hnames' first' List.mem_cons_self))
  | cons first rest ih =>
    cases names' with
    | nil =>
      have htext := congrArg String.toList h
      rw [toList_intercalate_cons, String.intercalate_nil, String.toList_empty] at htext
      exact absurd (List.append_eq_nil_iff.mp htext).1
        (hne (hnames first List.mem_cons_self))
    | cons first' rest' =>
      obtain ⟨hfirst, hnames⟩ := List.forall_mem_cons.mp hnames
      obtain ⟨hfirst', hnames'⟩ := List.forall_mem_cons.mp hnames'
      have htext := congrArg String.toList h
      rw [toList_intercalate_cons, toList_intercalate_cons] at htext
      -- the first identifiers end where the first characters stand that belong to none
      obtain ⟨hsame, hrest⟩ := hfirst.word.append_inj hfirst'.word
        (not_isWordChar_head?_joinedRest rest) (not_isWordChar_head?_joinedRest rest') htext
      have hjoined : ", ".intercalate rest = ", ".intercalate rest' := by
        unfold joinedRest at hrest
        by_cases hnil : rest = [] <;> by_cases hnil' : rest' = []
        · rw [hnil, hnil']
        · simp [hnil, hnil'] at hrest
        · simp [hnil, hnil'] at hrest
        · rw [if_neg hnil, if_neg hnil'] at hrest
          exact String.ext (List.append_cancel_left hrest)
      rw [hsame, ih hnames hnames' hjoined]

/-! ## Qualified identifiers

Namespaces stand in front of an identifier, each followed by two colons, and none of these is part
of a word. -/

theorem isQualified_inside_iff {space s : String} (hspace : IsWord space) :
    IsQualified (space ++ "::" ++ s) ↔ IsIdentifier space ∧ IsQualified s := by
  refine ⟨fun h => ?_, fun ⟨hspace, h⟩ => .inside hspace h⟩
  have hstops : ∀ t : String, ∀ c ∈ ("::".toList ++ t.toList).head?, ¬IsWordChar c := by
    rintro t _ ⟨⟩
    decide
  generalize htext : space ++ "::" ++ s = text at h
  cases h with
  | plain h =>
    -- there is a colon in the text
    have hcolon := h.word ':' (by rw [← htext]; simp)
    exact absurd hcolon (by decide)
  | inside hspace' h =>
    have hchars := congrArg String.toList htext
    simp only [String.toList_append, List.append_assoc] at hchars
    obtain ⟨rfl, hrest⟩ := hspace.append_inj hspace'.word (hstops _) (hstops _) hchars
    obtain rfl := String.ext (List.append_cancel_left hrest)
    exact ⟨hspace', h⟩

theorem isQualified_iff_of_isWord {s : String} (hs : IsWord s) :
    IsQualified s ↔ IsIdentifier s := by
  refine ⟨fun h => ?_, .plain⟩
  cases h with
  | plain h => exact h
  | inside =>
    have hcolon := hs ':' (by simp)
    exact absurd hcolon (by decide)

/-! ## Names of directories

The name of a module is the path of its directory below the root, character by character. A letter
or a digit stays, and anything else becomes a letter or an underscore. Nothing is put in front, so a
first digit stays where it is. -/

/-- The names that a path has behind a base, or all of its names where it does not start with the
base. -/
def Path.namesBehind (p base : Path) : List String :=
  ((p.componentsBehind? base).getD p.components).filterMap Component.name?

theorem Path.name_of_mem_namesBehind {p base : Path} {s : String} (hs : s ∈ p.namesBehind base) :
    s ≠ "" ∧ '/' ∉ s.toList := by
  obtain ⟨c, hc, hname⟩ := List.mem_filterMap.mp hs
  cases c with
  | name text =>
    obtain rfl := Option.some.inj hname
    refine name_of_mem_components (p := p) ?_
    cases hbehind : p.componentsBehind? base with
    | none =>
      rw [hbehind] at hc
      exact hc
    | some behind =>
      rw [hbehind] at hc
      rw [← List.isPrefixOf?_eq_some_iff_append_eq.mp hbehind]
      exact List.mem_append_right _ hc
  | _ => cases hname

namespace Module

theorem isWordChar_nameChar (c : Char) : IsWordChar (nameChar c) := by
  unfold nameChar
  split
  · decide
  split
  · decide
  split
  · decide
  split
  · next hkept => exact hkept
  · decide

/-- Digits are kept, and nothing becomes one. -/
theorem isDigit_nameChar (c : Char) : (nameChar c).isDigit = c.isDigit := by
  unfold nameChar
  split
  · next hdot => rw [hdot]; decide
  split
  · next hslash => rw [hslash]; decide
  split
  · next hhyphen => rw [hhyphen]; decide
  split
  · rfl
  -- any other character becomes an underscore, so it must not have been a digit
  · next hother =>
    have hdigit : c.isDigit = false := by
      rw [Bool.eq_false_iff]
      intro hdigit
      exact hother (Or.inl (by rw [Char.isAlphanum, hdigit, Bool.or_true]))
    rw [hdigit]
    decide

theorem isWord_nameOf (directory root : Path) : IsWord (nameOf directory root) := by
  intro c hc
  rw [nameOf, String.toList_map, List.mem_map] at hc
  obtain ⟨c, _, rfl⟩ := hc
  exact isWordChar_nameChar c

theorem toList_nameOf (directory root : Path) : (nameOf directory root).toList =
    ("/".intercalate (directory.namesBehind root)).toList.map nameChar :=
  String.toList_map

theorem nameOf_eq_blank_iff {directory root : Path} :
    nameOf directory root = "" ↔ directory.namesBehind root = [] := by
  rw [← String.toList_eq_nil_iff, toList_nameOf, List.map_eq_nil_iff, String.toList_eq_nil_iff]
  constructor
  · intro hblank
    by_contra hne
    exact intercalate_ne_blank hne (fun _ hs => Path.name_of_mem_namesBehind hs) hblank
  · intro hnil
    rw [hnil]
    rfl

/-- A name begins like the first directory below the root. -/
theorem head?_nameOf {directory root : Path} {first : String} {rest : List String}
    (hnames : directory.namesBehind root = first :: rest) :
    (nameOf directory root).toList.head? = first.toList.head?.map nameChar := by
  have hfirst : first.toList ≠ [] := by
    rw [ne_eq, String.toList_eq_nil_iff]
    exact (Path.name_of_mem_namesBehind (hnames ▸ List.mem_cons_self)).1
  rw [toList_nameOf, hnames, List.head?_map, String.toList_intercalate]
  congr 1
  cases rest with
  | nil => simp [List.intercalate]
  | cons second rest =>
    rw [List.map_cons, List.map_cons, List.intercalate_cons_cons, List.append_assoc,
      List.head?_append_of_ne_nil _ hfirst]

theorem beginsWithDigit_nameOf_iff {directory root : Path} {first : String} {rest : List String}
    (hnames : directory.namesBehind root = first :: rest) :
    BeginsWithDigit (nameOf directory root) ↔ BeginsWithDigit first := by
  rw [BeginsWithDigit, BeginsWithDigit, head?_nameOf hnames, Option.any_map]
  simp only [isDigit_nameChar]

/-- **A name is an identifier** iff there is a directory below the root to name the module after,
and the first one does not begin with a digit. -/
theorem isIdentifier_nameOf_iff {directory root : Path} :
    IsIdentifier (nameOf directory root) ↔
      ∃ first rest, directory.namesBehind root = first :: rest ∧ ¬BeginsWithDigit first := by
  rw [isIdentifier_iff, and_iff_right (isWord_nameOf directory root), ne_eq, nameOf_eq_blank_iff]
  cases hnames : directory.namesBehind root with
  | nil => simp
  | cons first rest =>
    rw [beginsWithDigit_nameOf_iff hnames]
    simp

/-- A symbol is an identifier, whatever the name of its module begins with. -/
theorem isIdentifier_symbol (kind : ModuleKind) {module function : String} (hmodule : IsWord module)
    (hfunction : IsWord function) : IsIdentifier (symbol kind module function) := by
  have hhead : IsIdentifier (kind.symbolHead ++ "_") := by
    cases kind <;> decide
  have hunderscore : IsWord "_" := by decide
  exact ((hhead.append hmodule).append hunderscore).append hfunction

end Module

end MemoryHierarchy
