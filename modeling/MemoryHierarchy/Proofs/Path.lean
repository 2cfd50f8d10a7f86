import Mathlib.Data.List.Infix
import MemoryHierarchy.FileTree

/-!
# Paths and the places they lead to

A path is read off its segments, and its components can be written and read again. Each component
leads from one place to another; the places on the way of a path are those of its initial parts. The
path above one has all of its components but the last, and a file of a directory has one more.
-/

namespace MemoryHierarchy

/-! ## Places

Components lead from place to place without a look at the tree. Two dots lead to the place above,
and from the root to the root. -/

namespace Path

/-- Where a component leads from a place. The parent of the root is the root, and an absolute
component starts anew. -/
def Component.follow (place : List String) : Component → List String
  | .root => []
  | .here => place
  | .parent => place.dropLast
  | .name s => place ++ [s]

/-- The place to which the components of a path lead from a working directory. It is computed from
the names alone, without asking whether anything is there. -/
def place (p : Path) (working : List String) : List String :=
  p.components.foldl Component.follow working

theorem slash_not_mem_of_mem_splitOn {text piece : List Char} (hpiece : piece ∈ text.splitOn '/') :
    '/' ∉ piece := by
  induction text generalizing piece with
  | nil =>
    rw [List.splitOn_nil, List.mem_singleton] at hpiece
    rw [hpiece]
    exact List.not_mem_nil
  -- a slash starts a new piece, and any other character goes to the first piece of the rest
  | cons c text ih =>
    rw [List.splitOn_cons_eq_if_modifyHead] at hpiece
    split at hpiece
    · rcases List.mem_cons.mp hpiece with rfl | hpiece
      · exact List.not_mem_nil
      · exact ih hpiece
    · next hc =>
      cases hsplit : text.splitOn '/' with
      | nil =>
        rw [hsplit] at hpiece
        exact absurd hpiece List.not_mem_nil
      | cons first rest =>
        rw [hsplit, List.modifyHead_cons] at hpiece
        rcases List.mem_cons.mp hpiece with rfl | hpiece
        · have hfirst : '/' ∉ first := ih (by rw [hsplit]; exact List.mem_cons_self)
          rw [List.mem_cons, not_or]
          exact ⟨fun heq => hc (by rw [← heq]; rfl), hfirst⟩
        · exact ih (by rw [hsplit]; exact List.mem_cons_of_mem _ hpiece)

/-- The component of a segment, when it is a name, is the segment. -/
theorem Component.eq_of_ofSegment? {segment s : String}
    (hname : ofSegment? segment = some (.name s)) : segment = s ∧ s ≠ "" := by
  unfold ofSegment? at hname
  split at hname
  · cases hname
  · cases hname
  · cases hname
  · next hempty _ _ =>
    cases hname
    exact ⟨rfl, hempty⟩

/-- The names in a path are not empty and have no slash. -/
theorem name_of_mem_components {p : Path} {s : String} (hname : .name s ∈ p.components) :
    s ≠ "" ∧ '/' ∉ s.toList := by
  have hrest : .name s ∈ p.segments.filterMap Component.ofSegment? := by
    unfold components at hname
    dsimp only at hname
    split at hname
    · simpa using hname
    · split at hname
      · simpa using hname
      · exact hname
  obtain ⟨segment, hsegment, hcomponent⟩ := List.mem_filterMap.mp hrest
  obtain ⟨rfl, hne⟩ := Component.eq_of_ofSegment? hcomponent
  obtain ⟨piece, hpiece, rfl⟩ := List.mem_map.mp hsegment
  refine ⟨hne, ?_⟩
  rw [String.toList_ofList]
  exact slash_not_mem_of_mem_splitOn hpiece

theorem splitOn_toList_intercalate {names : List String} (hne : names ≠ [])
    (hnames : ∀ s ∈ names, '/' ∉ s.toList) :
    ("/".intercalate names).toList.splitOn '/' = names.map String.toList := by
  rw [String.toList_intercalate]
  refine List.splitOn_intercalate '/' (fun text htext => ?_) (by simpa using hne)
  obtain ⟨s, hs, rfl⟩ := List.mem_map.mp htext
  exact hnames s hs

/-! ## Components

The components of a path are those of its segments, apart from blank ones and single dots, except
for one at the start. -/

namespace Component

/-- A component that can be written behind the start of a path. -/
def Ordinary (c : Component) : Prop := ofSegment? c.text = some c ∧ '/' ∉ c.text.toList

theorem text_of_ofSegment? {segment : String} {c : Component}
    (hsegment : ofSegment? segment = some c) : c.text = segment := by
  unfold ofSegment? at hsegment
  split at hsegment
  · cases hsegment
  · cases hsegment
  · cases hsegment
    rfl
  · cases hsegment
    rfl

theorem Ordinary.text_ne {c : Component} (h : c.Ordinary) : c.text ≠ "" ∧ c.text ≠ "." := by
  constructor
  · intro hblank
    have hnone := h.1
    rw [hblank] at hnone
    cases hnone
  · intro hdot
    have hnone := h.1
    rw [hdot] at hnone
    cases hnone

end Component

/-- The component that a path starts with, if it does not start with a name. -/
def origin (p : Path) : List Component :=
  if p.isAbsolute then [.root] else if p.segments.head? = some "." then [.here] else []

theorem components_eq (p : Path) :
    p.components = p.origin ++ p.segments.filterMap Component.ofSegment? := by
  unfold components origin
  dsimp only
  split
  · rfl
  · split <;> rfl

theorem origin_eq_or (p : Path) : p.origin = [] ∨ p.origin = [.root] ∨ p.origin = [.here] := by
  unfold origin
  split
  · exact .inr (.inl rfl)
  · split
    · exact .inr (.inr rfl)
    · exact .inl rfl

theorem ordinary_of_mem_segments {p : Path} {c : Component}
    (hc : c ∈ p.segments.filterMap Component.ofSegment?) : c.Ordinary := by
  obtain ⟨segment, hsegment, hcomponent⟩ := List.mem_filterMap.mp hc
  have htext := Component.text_of_ofSegment? hcomponent
  obtain ⟨piece, hpiece, rfl⟩ := List.mem_map.mp hsegment
  refine ⟨htext ▸ hcomponent, ?_⟩
  rw [htext, String.toList_ofList]
  exact slash_not_mem_of_mem_splitOn hpiece

/-- An absolute path has a blank segment in front of others. -/
theorem isAbsolute_iff {p : Path} :
    p.isAbsolute = true ↔ ∃ segment rest, p.segments = "" :: segment :: rest := by
  unfold isAbsolute segments
  rw [decide_eq_true_eq]
  cases p.text.toList with
  | nil => simp
  | cons c text =>
    rw [List.splitOn_cons_eq_if_modifyHead]
    obtain ⟨piece, rest, hrest⟩ := List.exists_cons_of_ne_nil (List.splitOn_ne_nil '/' text)
    by_cases hc : c = '/'
    · simp [hc, hrest]
    · simp [hc, hrest, ← String.toList_inj]

theorem origin_of_segments_eq_cons {p : Path} {segment : String} {rest : List String}
    (hsegments : p.segments = segment :: rest) (hne : segment ≠ "") :
    p.origin = if segment = "." then [.here] else [] := by
  have hrelative : p.isAbsolute = false := by
    rw [← Bool.not_eq_true, isAbsolute_iff]
    rintro ⟨other, others, hother⟩
    rw [hsegments, List.cons.injEq] at hother
    exact hne hother.1
  rw [origin, hrelative, if_neg Bool.false_ne_true, hsegments]
  simp

/-! ## Writing components

A path is put together from components when its last one is dropped. What is written is read again,
so the path above another one has its components but the last. -/

theorem segments_ofComponents {cs : List Component} (hne : cs ≠ []) (hroot : cs ≠ [.root])
    (hslash : ∀ c ∈ cs, '/' ∉ c.text.toList) :
    (ofComponents cs).segments = cs.map Component.text := by
  have htext : ofComponents cs = ⟨"/".intercalate (cs.map Component.text)⟩ := by
    unfold ofComponents
    split
    · exact absurd rfl hroot
    · rfl
  have hnames : ∀ s ∈ cs.map Component.text, '/' ∉ s.toList := by
    intro s hs
    obtain ⟨c, hc, rfl⟩ := List.mem_map.mp hs
    exact hslash c hc
  rw [segments, htext, splitOn_toList_intercalate (by simpa using hne) hnames, List.map_map]
  calc (cs.map Component.text).map (String.ofList ∘ String.toList)
      = (cs.map Component.text).map id := List.map_congr_left fun s _ => String.ofList_toList
    _ = cs.map Component.text := List.map_id _

theorem filterMap_text {cs : List Component} (hcs : ∀ c ∈ cs, c.Ordinary) :
    (cs.map Component.text).filterMap Component.ofSegment? = cs := by
  induction cs with
  | nil => rfl
  | cons c cs ih =>
    rw [List.map_cons, List.filterMap_cons, (hcs c List.mem_cons_self).1,
      ih fun other hother => hcs other (List.mem_cons_of_mem _ hother)]

/-- **Components that are written are read again.** -/
theorem components_ofComponents {start rest : List Component}
    (hstart : start = [] ∨ start = [.root] ∨ start = [.here]) (hrest : ∀ c ∈ rest, c.Ordinary) :
    (ofComponents (start ++ rest)).components = start ++ rest := by
  cases rest with
  | nil =>
    rw [List.append_nil]
    rcases hstart with rfl | rfl | rfl <;> decide
  | cons c rest =>
    obtain ⟨hblank, hdot⟩ := (hrest c List.mem_cons_self).text_ne
    have hslash : ∀ other ∈ c :: rest, '/' ∉ other.text.toList := fun other h => (hrest other h).2
    have hread := filterMap_text hrest
    rw [List.map_cons] at hread
    -- the segment in front tells the three kinds of paths apart
    rw [components_eq]
    rcases hstart with rfl | rfl | rfl
    · have hsegments : (ofComponents (c :: rest)).segments = c.text :: rest.map Component.text :=
        segments_ofComponents (by simp) (by rintro ⟨⟩; exact hblank rfl) hslash
      rw [List.nil_append, hsegments, hread, origin_of_segments_eq_cons hsegments hblank,
        if_neg hdot, List.nil_append]
    · have hsegments : (ofComponents (.root :: c :: rest)).segments =
          "" :: c.text :: rest.map Component.text :=
        segments_ofComponents (by simp) (by simp) (List.forall_mem_cons.mpr ⟨by decide, hslash⟩)
      rw [List.singleton_append, hsegments, origin, if_pos (isAbsolute_iff.mpr ⟨_, _, hsegments⟩)]
      exact congrArg (Component.root :: ·) hread
    · have hsegments : (ofComponents (.here :: c :: rest)).segments =
          "." :: c.text :: rest.map Component.text :=
        segments_ofComponents (by simp) (by simp) (List.forall_mem_cons.mpr ⟨by decide, hslash⟩)
      rw [List.singleton_append, hsegments, origin_of_segments_eq_cons hsegments (by decide),
        if_pos rfl]
      exact congrArg (Component.here :: ·) hread

theorem components_parent? {p above : Path} (habove : p.parent? = some above) :
    above.components = p.components.dropLast := by
  have hpath : above = ofComponents p.components.dropLast := by
    unfold parent? at habove
    split at habove
    · cases habove
    · cases habove
    · exact (Option.some.inj habove).symm
  -- without its last component a path is still a start and ordinary components behind it
  obtain ⟨start, rest, hstart, hrest, hcomponents⟩ : ∃ start rest : List Component,
      (start = [] ∨ start = [.root] ∨ start = [.here]) ∧ (∀ c ∈ rest, c.Ordinary) ∧
        p.components.dropLast = start ++ rest := by
    rw [components_eq]
    rcases List.eq_nil_or_concat' (p.segments.filterMap Component.ofSegment?) with hnil | hconcat
    · refine ⟨[], [], .inl rfl, by simp, ?_⟩
      rw [hnil, List.append_nil]
      rcases p.origin_eq_or with horigin | horigin | horigin <;> rw [horigin] <;> rfl
    · obtain ⟨rest, last, hconcat⟩ := hconcat
      refine ⟨p.origin, rest, p.origin_eq_or, fun c hc => ordinary_of_mem_segments (p := p) ?_, ?_⟩
      · rw [hconcat]
        exact List.mem_append_left _ hc
      · rw [hconcat, ← List.append_assoc, List.dropLast_concat]
  rw [hpath, hcomponents, components_ofComponents hstart hrest]

/-! ## The way of a path

The directories above a path are at places which initial parts of it lead to. -/

/-- The places on the way of a path from a working directory: those to which its initial parts lead.
All of them but the last have to be directories for the path to be followed. -/
def way (p : Path) (working : List String) : List (List String) :=
  p.components.inits.map fun cs => cs.foldl Component.follow working

theorem mem_way_iff {p : Path} {working place : List String} :
    place ∈ p.way working ↔
      ∃ cs, cs <+: p.components ∧ cs.foldl Component.follow working = place := by
  rw [way, List.mem_map]
  simp only [List.mem_inits]

example : (⟨"out/../gen"⟩ : Path).way ["home"] =
    [["home"], ["home", "out"], ["home"], ["home", "gen"]] := by decide

theorem place_mem_way (p : Path) (working : List String) : p.place working ∈ p.way working :=
  mem_way_iff.mpr ⟨p.components, List.prefix_rfl, rfl⟩

/-- The way of the path above another is part of the way of that. -/
theorem way_subset_of_parent? {p above : Path} (habove : p.parent? = some above)
    (working : List String) : above.way working ⊆ p.way working := by
  intro place hplace
  obtain ⟨cs, hcs, hfollow⟩ := mem_way_iff.mp hplace
  rw [components_parent? habove] at hcs
  exact mem_way_iff.mpr ⟨cs, hcs.trans (List.dropLast_prefix _), hfollow⟩

/-! ## Files of a directory

A file in a directory has a path of one component more, also where the directory ends with a slash.
-/

/-- A name by itself is a component of a path. -/
def IsName (name : String) : Prop :=
  Component.ofSegment? name = some (.name name) ∧ '/' ∉ name.toList

instance (name : String) : Decidable (IsName name) := inferInstanceAs (Decidable (_ ∧ _))

theorem IsName.ne {name : String} (hname : IsName name) : name ≠ "" ∧ name ≠ "." :=
  Component.Ordinary.text_ne (c := .name name) hname

theorem isAbsolute_of_isName {name : String} (hname : IsName name) :
    (⟨name⟩ : Path).isAbsolute = false := by
  rw [isAbsolute, decide_eq_false_iff_not]
  exact fun hhead => hname.2 (List.mem_of_head? hhead)

theorem segments_of_isName {name : String} (hname : IsName name) :
    (⟨name⟩ : Path).segments = [name] := by
  rw [segments, List.splitOn_eq_singleton hname.2, List.map_singleton, String.ofList_toList]

/-- A name behind a directory is one more segment; a slash at the end of the directory makes no
other one. -/
theorem exists_segments_join {name : String} (hname : IsName name) {p : Path}
    (hblank : p.text ≠ "") :
    ∃ front, front ≠ [] ∧ (p.join ⟨name⟩).segments = front ++ [name] ∧
      (p.segments = front ∨ p.segments = front ++ [""]) := by
  have hsegments : ∀ text : List Char,
      ((text ++ '/' :: name.toList).splitOn '/').map String.ofList =
        (text.splitOn '/').map String.ofList ++ [name] := by
    intro text
    rw [List.splitOn_append_cons_self, List.map_append]
    exact congrArg _ (segments_of_isName hname)
  have hne : ∀ text : List Char, (text.splitOn '/').map String.ofList ≠ [] := by
    intro text
    rw [ne_eq, List.map_eq_nil_iff]
    exact List.splitOn_ne_nil '/' text
  -- a slash is put in between unless the directory ends with one
  by_cases hslash : p.text.toList.getLast? = some '/'
  · obtain ⟨text, htext⟩ := List.getLast?_eq_some_iff.mp hslash
    refine ⟨_, hne text, ?_, .inr ?_⟩
    · rw [join, isAbsolute_of_isName hname, if_neg Bool.false_ne_true, if_pos (.inr hslash),
        segments, String.toList_append, htext, List.append_assoc]
      exact hsegments text
    · rw [segments, htext, List.splitOn_append_cons_self, List.splitOn_nil, List.map_append]
      rfl
  · refine ⟨p.segments, hne _, ?_, .inl rfl⟩
    rw [join, isAbsolute_of_isName hname, if_neg Bool.false_ne_true,
      if_neg (not_or.mpr ⟨hblank, hslash⟩), segments, String.toList_append, String.toList_append,
      List.append_assoc]
    exact hsegments p.text.toList

/-- A name behind a path is appended to its text. -/
theorem exists_text_join {name : String} (hname : IsName name) (p : Path) :
    ∃ rest, (p.join ⟨name⟩).text = p.text ++ rest := by
  rw [join, isAbsolute_of_isName hname, if_neg Bool.false_ne_true]
  split
  · exact ⟨name, rfl⟩
  · exact ⟨"/" ++ name, String.append_assoc⟩

theorem isAbsolute_join {name : String} (hname : IsName name) {p : Path} (hblank : p.text ≠ "") :
    (p.join ⟨name⟩).isAbsolute = p.isAbsolute := by
  have hchars : p.text.toList ≠ [] := by
    rwa [ne_eq, String.toList_eq_nil_iff]
  obtain ⟨rest, htext⟩ := exists_text_join hname p
  rw [isAbsolute, isAbsolute, htext, String.toList_append, List.head?_append_of_ne_nil _ hchars]

theorem components_join {name : String} (hname : IsName name) (p : Path) :
    (p.join ⟨name⟩).components = p.components ++ [.name name] := by
  obtain ⟨hne, hdot⟩ := hname.ne
  -- behind the blank path the name starts a path, and elsewhere it continues one
  by_cases hblank : p.text = ""
  · obtain rfl : p = ⟨""⟩ := by
      cases p
      exact congrArg Path.mk hblank
    have hjoin : (⟨""⟩ : Path).join ⟨name⟩ = ⟨name⟩ := by
      rw [join, isAbsolute_of_isName hname, if_neg Bool.false_ne_true, if_pos (.inl rfl)]
      exact congrArg Path.mk String.empty_append
    have hsegments := segments_of_isName hname
    rw [hjoin, components_eq, origin_of_segments_eq_cons hsegments hne, if_neg hdot, hsegments,
      List.filterMap_cons, hname.1]
    rfl
  · obtain ⟨front, hfront, hjoin, hsegments⟩ := exists_segments_join hname hblank
    have hhead : (p.join ⟨name⟩).segments.head? = p.segments.head? := by
      rw [hjoin, List.head?_append_of_ne_nil _ hfront]
      rcases hsegments with hsegments | hsegments <;> rw [hsegments]
      rw [List.head?_append_of_ne_nil _ hfront]
    have hread : p.segments.filterMap Component.ofSegment? =
        front.filterMap Component.ofSegment? := by
      rcases hsegments with hsegments | hsegments <;> rw [hsegments]
      rw [List.filterMap_append]
      exact List.append_nil _
    rw [components_eq, components_eq p, origin, origin, isAbsolute_join hname hblank, hhead,
      hread, hjoin, List.filterMap_append, List.filterMap_cons, hname.1, List.append_assoc]
    rfl

theorem place_join {name : String} (hname : IsName name) (p : Path) (working : List String) :
    (p.join ⟨name⟩).place working = p.place working ++ [name] := by
  rw [place, components_join hname, List.foldl_append]
  rfl

end Path

end MemoryHierarchy
