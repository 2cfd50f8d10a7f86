import Mathlib.Data.List.DropRight
import MemoryHierarchy.Proofs.Except
import MemoryHierarchy.Proofs.Path

/-!
# What operations do to files

An operation resolves a path to a place and changes what is there. Trees are compared by what is at
each place, `FileTree.contentAt?`: nothing, a directory, or a file with its text. What is written is
a file at the place of its path, what is created a directory, and at no other place is there a
difference. Creating a directory with those above it creates directories on the way of the path
only, `CreatesOn`, and all of the way is there afterwards.
-/

namespace MemoryHierarchy

open MemoryHierarchy.Path (Component)

namespace FileTree

variable {tree node : FileTree} {place above : List String} {name : String}

/-! ## What is at a place

A place is a list of names below the root. Operations are told by what is at each place before and
after, so a tree is a function of places. -/

/-- The text of a file; a directory has none. -/
def text? : FileTree → Option String
  | .file content => some content
  | .directory _ => none

/-- What is at a place: a file with its text, or a directory, which has no text. Two file systems
are compared by this and not by their trees, in which entries could be repeated. -/
def contentAt? (tree : FileTree) (place : List String) : Option (Option String) :=
  (tree.at? place).map text?

theorem contentAt?_eq_directory_iff :
    tree.contentAt? place = some none ↔ ∃ entries, tree.at? place = some (.directory entries) := by
  rw [contentAt?, Option.map_eq_some_iff]
  constructor
  · rintro ⟨found, hfound, htext⟩
    cases found with
    | file content => cases htext
    | directory entries => exact ⟨entries, hfound⟩
  · rintro ⟨entries, hfound⟩
    exact ⟨_, hfound, rfl⟩

theorem at?_append (tree : FileTree) (place names : List String) :
    tree.at? (place ++ names) = (tree.at? place).bind (·.at? names) := by
  induction place generalizing tree with
  | nil => rfl
  | cons name place ih =>
    show (tree.child? name).bind (·.at? (place ++ names)) = _
    rw [at?, Option.bind_assoc]
    exact Option.bind_congr fun child _ => ih child

/-- There is nothing below a place that is no directory. -/
theorem contentAt?_append_eq_none {names : List String} (hplace : tree.contentAt? place ≠ some none)
    (hnames : names ≠ []) : tree.contentAt? (place ++ names) = none := by
  obtain ⟨name, names, rfl⟩ := List.exists_cons_of_ne_nil hnames
  rw [contentAt?, at?_append]
  cases hfound : tree.at? place with
  | none => rfl
  | some found =>
    cases found with
    | file content => rfl
    | directory entries =>
      exact absurd (contentAt?_eq_directory_iff.mpr ⟨entries, hfound⟩) hplace

theorem contentAt?_dropLast (hplace : tree.contentAt? (place ++ [name]) ≠ none) :
    tree.contentAt? place = some none := by
  by_contra hnot
  exact hplace (contentAt?_append_eq_none hnot (List.cons_ne_nil _ _))

theorem lookup_setEntry (entries : List (String × FileTree)) (name other : String)
    (tree : FileTree) :
    (setEntry entries name tree).lookup other =
      if name = other then some tree else entries.lookup other := by
  -- looking up compares by Boolean equality, which is put aside first
  have hcons : ∀ (entry : String × FileTree) (rest : List (String × FileTree)),
      (entry :: rest).lookup other =
        if entry.1 = other then some entry.2 else rest.lookup other := by
    intro entry rest
    rw [List.lookup_cons]
    by_cases heq : entry.1 = other
    · simp [heq]
    · rw [if_neg heq, beq_false_of_ne (Ne.symm heq)]
  induction entries with
  | nil => rw [setEntry, hcons]
  | cons entry entries ih =>
    rw [setEntry]
    split
    · next heq => rw [hcons, hcons, heq]; split <;> rfl
    · next hne =>
      rw [hcons, hcons, ih]
      by_cases hname : name = other
      · subst hname
        rw [if_neg hne, if_pos rfl, if_pos rfl]
      · rw [if_neg hname, if_neg hname]

theorem contentAt?_cons (tree : FileTree) (name : String) (place : List String) :
    tree.contentAt? (name :: place) = (tree.child? name).bind (·.contentAt? place) := by
  rw [contentAt?, at?, Option.map_bind]
  rfl

theorem exists_child_of_contentAt? (hplace : tree.contentAt? (name :: place) ≠ none) :
    ∃ entries child, tree = .directory entries ∧ entries.lookup name = some child := by
  rw [contentAt?_cons] at hplace
  cases tree with
  | file content => exact absurd rfl hplace
  | directory entries =>
    cases hchild : entries.lookup name with
    | none =>
      rw [child?, hchild] at hplace
      exact absurd rfl hplace
    | some child => exact ⟨entries, child, rfl, hchild⟩

theorem contentAt?_setEntry (entries : List (String × FileTree)) (name first : String)
    (child : FileTree) (place : List String) :
    (FileTree.directory (setEntry entries name child)).contentAt? (first :: place) =
      if name = first then child.contentAt? place
      else (FileTree.directory entries).contentAt? (first :: place) := by
  rw [contentAt?_cons, contentAt?_cons, child?, child?, lookup_setEntry]
  split <;> rfl

/-- Below a file, or an empty directory, is nothing. -/
theorem contentAt?_of_childless (hnode : ∀ name, node.child? name = none) (place : List String) :
    node.contentAt? place = if place = [] then some node.text? else none := by
  cases place with
  | nil => rfl
  | cons name place =>
    rw [contentAt?_cons, hnode, if_neg (List.cons_ne_nil _ _)]
    rfl

/-- **Putting a file, or an empty directory, changes one place**, where there was no directory. The
induction follows the place down the tree. -/
theorem contentAt?_put (hnode : ∀ name, node.child? name = none)
    (habove : tree.contentAt? above = some none)
    (hfree : tree.contentAt? (above ++ [name]) ≠ some none)
    (place : List String) :
    (put node (above ++ [name]) tree).contentAt? place =
      if place = above ++ [name] then some node.text? else tree.contentAt? place := by
  -- the entry that leads to the place is set on each level, with the same below the others
  induction above generalizing tree place with
  | nil =>
    obtain ⟨entries, hentries⟩ := contentAt?_eq_directory_iff.mp habove
    obtain rfl : tree = .directory entries := Option.some.inj hentries
    cases place with
    | nil => rfl
    | cons first place =>
      show (FileTree.directory (setEntry entries name node)).contentAt? (first :: place) = _
      rw [contentAt?_setEntry]
      by_cases hname : name = first
      · subst hname
        rw [if_pos rfl, contentAt?_of_childless hnode]
        by_cases hend : place = []
        · rw [if_pos hend, if_pos (by rw [hend, List.nil_append])]
        · rw [if_neg hend, if_neg (by simpa using hend)]
          exact (contentAt?_append_eq_none hfree hend).symm
      · rw [if_neg hname, if_neg (by simp [Ne.symm hname])]
  | cons first above ih =>
    have hthere : tree.contentAt? (first :: above) ≠ none := by
      rw [habove]
      exact Option.some_ne_none _
    obtain ⟨entries, child, rfl, hchild⟩ := exists_child_of_contentAt? hthere
    have hbelow : ∀ names, (FileTree.directory entries).contentAt? (first :: names) =
        child.contentAt? names := fun names => by
      rw [contentAt?_cons, child?, hchild, Option.bind_some]
    rw [List.cons_append, hbelow] at hfree
    rw [hbelow] at habove
    rw [List.cons_append, put, hchild, Option.getD_some]
    cases place with
    | nil => rfl
    | cons other place =>
      rw [contentAt?_setEntry]
      by_cases hname : first = other
      · subst hname
        rw [if_pos rfl, ih habove hfree, hbelow]
        simp
      · rw [if_neg hname, if_neg (by simp [Ne.symm hname])]

/-! ## Trees whose entries have names

An entry of a directory has a name of one component, which a path can spell. A tree as data may have
other names, so this is asked for where it counts: where the entries of a directory are listed, and
paths are made of what is listed. -/

mutual

/-- All entries of the directories in a tree have names that a path can spell. -/
def wellNamed : FileTree → Bool
  | .file _ => true
  | .directory entries => entriesWellNamed entries

/-- All entries, and those of the directories below them, have names that a path can spell. -/
def entriesWellNamed : List (String × FileTree) → Bool
  | [] => true
  | (name, tree) :: rest => decide (Path.IsName name) && tree.wellNamed && entriesWellNamed rest

end

theorem entriesWellNamed_iff {entries : List (String × FileTree)} :
    entriesWellNamed entries = true ↔
      ∀ entry ∈ entries, Path.IsName entry.1 ∧ entry.2.wellNamed = true := by
  induction entries with
  | nil => simp [entriesWellNamed]
  | cons entry entries ih => simp [entriesWellNamed, ih, and_assoc]

/-- What is found at a place of such a tree is such a tree. -/
theorem wellNamed_of_at? {found : FileTree} (htree : tree.wellNamed = true)
    (hfound : tree.at? place = some found) : found.wellNamed = true := by
  induction place generalizing tree with
  | nil =>
    obtain rfl := Option.some.inj hfound
    exact htree
  | cons name place ih =>
    obtain ⟨child, hchild, hbelow⟩ := Option.bind_eq_some_iff.mp hfound
    cases tree with
    | file content => cases hchild
    | directory entries =>
      obtain ⟨front, back, rfl, -⟩ := List.lookup_eq_some_iff.mp hchild
      exact ih (entriesWellNamed_iff.mp htree (name, child) (by simp)).2 hbelow

end FileTree

namespace FileSystem

variable {fs fs' : FileSystem} {place last : List String} {segments : List String}

/-- What is at a place of a file system. -/
def contentAt? (fs : FileSystem) (place : List String) : Option (Option String) :=
  fs.root.contentAt? place

/-! ## Following paths

A path is followed segment by segment, while its components are what it means. Where it can be
followed at all the two agree, as every directory on the way is there. -/

/-- What becomes of following a segment from a place. One step fails or leads to exactly one place,
and a whole path is a fold of steps. -/
inductive StepsTo (fs : FileSystem) (place : List String) (segment : String) :
    Except FileError (List String) → Prop where
  /-- The place is no directory, or the segment is too long. -/
  | refused (e : FileError) (hmissing : e = .notFound → fs.contentAt? place = none) :
    StepsTo fs place segment (.error e)
  | here (hplace : fs.contentAt? place = some none)
      (hsegment : Component.ofSegment? segment = none) :
    StepsTo fs place segment (.ok place)
  | parent (hplace : fs.contentAt? place = some none)
      (hsegment : Component.ofSegment? segment = some .parent) :
    StepsTo fs place segment (.ok place.dropLast)
  | name (hplace : fs.contentAt? place = some none)
      (hsegment : Component.ofSegment? segment = some (.name segment))
      (hthere : fs.contentAt? (place ++ [segment]) ≠ none) :
    StepsTo fs place segment (.ok (place ++ [segment]))
  | missing (hplace : fs.contentAt? place = some none)
      (hsegment : Component.ofSegment? segment = some (.name segment))
      (hfree : fs.contentAt? (place ++ [segment]) = none) :
    StepsTo fs place segment (.error .notFound)

theorem stepsTo_step (fs : FileSystem) (place : List String) (segment : String) :
    fs.StepsTo place segment (fs.step place segment) := by
  unfold step
  split
  · next hnone =>
    refine .refused _ fun _ => ?_
    rw [contentAt?, FileTree.contentAt?, hnone]
    rfl
  · exact .refused _ nofun
  next entries hentries =>
  have hplace : fs.contentAt? place = some none :=
    FileTree.contentAt?_eq_directory_iff.mpr ⟨_, hentries⟩
  -- one level down is what the directory has under the segment
  have hbelow : fs.contentAt? (place ++ [segment]) =
      (entries.lookup segment).map FileTree.text? := by
    rw [contentAt?, FileTree.contentAt?, FileTree.at?_append, hentries]
    show ((entries.lookup segment).bind fun child => some child).map _ = _
    cases entries.lookup segment <;> rfl
  split
  · next hblank =>
    refine .here hplace ?_
    rcases hblank with rfl | rfl <;> rfl
  next hblank =>
  rw [not_or] at hblank
  split
  · next hparent =>
    subst hparent
    exact .parent hplace rfl
  next hparent =>
  -- what is neither blank nor made of dots is a name
  have hname : Component.ofSegment? segment = some (.name segment) := by
    unfold Component.ofSegment?
    split
    · exact absurd rfl hblank.1
    · exact absurd rfl hblank.2
    · exact absurd rfl hparent
    · rfl
  split
  · exact .refused _ nofun
  split
  · next hthere =>
    refine .name hplace hname ?_
    rwa [hbelow, ne_eq, Option.map_eq_none_iff, ← ne_eq, Option.ne_none_iff_isSome]
  · next hfree =>
    refine .missing hplace hname ?_
    rwa [hbelow, Option.map_eq_none_iff, ← Option.not_isSome_iff_eq_none]

/-- A segment that can be followed leads where its component leads. -/
theorem eq_follow_of_step {segment : String} {next : List String}
    (hstep : fs.step place segment = .ok next) :
    next = ((Component.ofSegment? segment).map (Component.follow place)).getD place := by
  have hsteps := fs.stepsTo_step place segment
  rw [hstep] at hsteps
  cases hsteps with
  | here _ hsegment => rw [hsegment]; rfl
  | parent _ hsegment => rw [hsegment]; rfl
  | name _ hsegment _ => rw [hsegment]; rfl

theorem eq_foldl_of_foldlM_step {segments : List String} {place last : List String}
    (hwalk : segments.foldlM fs.step place = .ok last) :
    last = (segments.filterMap Component.ofSegment?).foldl Component.follow place := by
  induction segments generalizing place with
  | nil =>
    rw [List.foldlM_nil, pure_eq_ok_iff] at hwalk
    exact hwalk.symm
  | cons segment segments ih =>
    rw [List.foldlM_cons, bind_eq_ok_iff] at hwalk
    obtain ⟨next, hstep, hwalk⟩ := hwalk
    rw [ih hwalk, eq_follow_of_step hstep, List.filterMap_cons]
    cases Component.ofSegment? segment <;> rfl

/-- A path that can be followed leads to the place of its components. -/
theorem eq_place_of_locate {p : Path} {place : List String} (hlocate : fs.locate p = .ok place) :
    place = p.place fs.working := by
  unfold locate at hlocate
  split at hlocate
  · cases hlocate
  rw [eq_foldl_of_foldlM_step hlocate, Path.place, Path.components, start]
  split
  · rfl
  · split <;> rfl

theorem exists_locate_of_isDirectory {p : Path} (hdirectory : fs.isDirectory p = true) :
    fs.locate p = .ok (p.place fs.working) := by
  unfold isDirectory lookup at hdirectory
  cases hlocate : fs.locate p with
  | error e =>
    rw [hlocate] at hdirectory
    cases hdirectory
  | ok place => rw [eq_place_of_locate hlocate]

theorem contentAt?_dropLast (hplace : fs.contentAt? place = some none) :
    fs.contentAt? place.dropLast = some none := by
  rcases List.eq_nil_or_concat' place with rfl | ⟨above, name, rfl⟩
  · exact hplace
  · rw [List.dropLast_concat]
    have hthere : fs.contentAt? (above ++ [name]) ≠ none := by
      rw [hplace]
      exact Option.some_ne_none _
    exact FileTree.contentAt?_dropLast hthere

/-- A segment is followed from a directory, to a directory unless it is a name. -/
theorem contentAt?_of_step {segment : String} {next : List String}
    (hstep : fs.step place segment = .ok next) :
    fs.contentAt? place = some none ∧ fs.contentAt? next ≠ none ∧
      (fs.contentAt? next ≠ some none → next = place ++ [segment]) := by
  have hsteps := fs.stepsTo_step place segment
  rw [hstep] at hsteps
  cases hsteps with
  | here hplace _ =>
    exact ⟨hplace, by rw [hplace]; exact Option.some_ne_none _, fun hnot => absurd hplace hnot⟩
  | parent hplace _ =>
    have habove := contentAt?_dropLast hplace
    exact ⟨hplace, by rw [habove]; exact Option.some_ne_none _, fun hnot => absurd habove hnot⟩
  | name hplace _ hthere => exact ⟨hplace, hthere, fun _ => rfl⟩

/-- A path that can be followed goes through directories. -/
theorem contentAt?_of_foldlM_step (hwalk : segments.foldlM fs.step place = .ok last)
    {cs : List Component} (hcs : cs <+: segments.filterMap Component.ofSegment?)
    (hproper : cs ≠ segments.filterMap Component.ofSegment?) :
    fs.contentAt? (cs.foldl Component.follow place) = some none := by
  -- blank segments and single dots lead nowhere, so they are no part of the components
  induction segments generalizing place cs with
  | nil => exact absurd (List.prefix_nil.mp hcs) hproper
  | cons segment segments ih =>
    rw [List.foldlM_cons, bind_eq_ok_iff] at hwalk
    obtain ⟨next, hstep, hwalk⟩ := hwalk
    have hnext := eq_follow_of_step hstep
    rw [List.filterMap_cons] at hcs hproper
    cases hsegment : Component.ofSegment? segment with
    | none =>
      rw [hsegment] at hcs hproper hnext
      dsimp only at hcs hproper
      obtain rfl : next = place := hnext
      exact ih hwalk hcs hproper
    | some c =>
      rw [hsegment] at hcs hproper hnext
      dsimp only at hcs hproper
      obtain rfl : next = c.follow place := hnext
      cases cs with
      | nil => exact (contentAt?_of_step hstep).1
      | cons first cs =>
        obtain ⟨rfl, htail⟩ := List.cons_prefix_cons.mp hcs
        exact ih hwalk htail fun heq => hproper (by rw [heq])

/-- A place to which a path can be followed is there, if the start is. -/
theorem contentAt?_last_of_foldlM_step (hstart : fs.contentAt? place ≠ none)
    (hwalk : segments.foldlM fs.step place = .ok last) : fs.contentAt? last ≠ none := by
  induction segments generalizing place with
  | nil =>
    rw [List.foldlM_nil, pure_eq_ok_iff] at hwalk
    exact hwalk ▸ hstart
  | cons segment segments ih =>
    rw [List.foldlM_cons, bind_eq_ok_iff] at hwalk
    obtain ⟨next, hstep, hwalk⟩ := hwalk
    exact ih (contentAt?_of_step hstep).2.1 hwalk

theorem foldl_origin (p : Path) : p.origin.foldl Component.follow fs.working = fs.start p := by
  unfold Path.origin start
  split
  · rfl
  · split <;> rfl

/-- All initial parts of a path but the path itself lead to directories. This is all that decides
whether a path can be followed to its last segment. -/
def Passes (fs : FileSystem) (p : Path) : Prop :=
  ∀ cs, cs <+: p.components → cs ≠ p.components →
    fs.contentAt? (cs.foldl Component.follow fs.working) = some none

theorem passes_of_prefix {p : Path} (hworking : fs.contentAt? fs.working = some none)
    (hparts : ∀ cs, cs <+: p.segments.filterMap Component.ofSegment? →
      cs ≠ p.segments.filterMap Component.ofSegment? →
      fs.contentAt? (cs.foldl Component.follow (fs.start p)) = some none) :
    fs.Passes p := by
  intro cs hcs hproper
  rw [Path.components_eq] at hcs hproper
  -- a path starts with one component at most, so a part of it is empty or has that
  have hsplit : cs = [] ∨
      ∃ rest, cs = p.origin ++ rest ∧ rest <+: p.segments.filterMap Component.ofSegment? := by
    rcases p.origin_eq_or with horigin | horigin | horigin <;> rw [horigin] at hcs ⊢
    · exact .inr ⟨cs, rfl, hcs⟩
    · exact List.prefix_cons_iff.mp hcs
    · exact List.prefix_cons_iff.mp hcs
  rcases hsplit with rfl | ⟨rest, rfl, hrest⟩
  · exact hworking
  · rw [List.foldl_append, foldl_origin]
    exact hparts rest hrest fun heq => hproper (by rw [heq])

theorem filterMap_splitLast (segments : List String) :
    segments.filterMap Component.ofSegment? =
      (splitLast segments).1.filterMap Component.ofSegment? ++
        (Component.ofSegment? (splitLast segments).2).toList := by
  -- the blank segments at the end stand for no component
  have hstrip : segments.filterMap Component.ofSegment? =
      (segments.rdropWhile (· = "")).filterMap Component.ofSegment? := by
    induction segments using List.reverseRecOn with
    | nil => rfl
    | append_singleton segments last ih =>
      rw [List.rdropWhile_concat]
      split
      · next hblank =>
        rw [decide_eq_true_eq] at hblank
        rw [List.filterMap_append, ih, hblank]
        exact List.append_nil _
      · rfl
  rw [hstrip]
  show _ = (segments.rdropWhile (· = "")).dropLast.filterMap _ ++
    (Component.ofSegment? ((segments.rdropWhile (· = "")).getLastD "")).toList
  rcases List.eq_nil_or_concat' (segments.rdropWhile (· = "")) with hnil | ⟨front, last, hlast⟩
  · rw [hnil]
    rfl
  · rw [hlast, List.dropLast_concat, List.filterMap_append, List.getLastD_concat]
    cases hc : Component.ofSegment? last <;> simp [hc]

/-! ## Where an operation takes place

Writing and creating follow all but the last segment, which need not exist. -/

theorem contentAt?_start (hworking : fs.contentAt? fs.working = some none) (p : Path) :
    fs.contentAt? (fs.start p) = some none := by
  unfold start
  split
  · -- above a directory there are directories, up to the root
    by_contra hroot
    by_cases hempty : fs.working = []
    · exact hroot (hempty ▸ hworking)
    · have hnone := FileTree.contentAt?_append_eq_none hroot hempty
      rw [List.nil_append] at hnone
      exact Option.some_ne_none none (hworking.symm.trans hnone)
  · exact hworking

/-- The last segment of a path is followed from a directory, where it may be missing. -/
theorem exists_between_of_target {p : Path} {found : Option FileTree}
    (hworking : fs.contentAt? fs.working = some none) (htarget : fs.target p = .ok (place, found)) :
    ∃ between last, p.segments.filterMap Component.ofSegment? =
        (splitLast p.segments).1.filterMap Component.ofSegment? ++
          (Component.ofSegment? last).toList ∧
      (splitLast p.segments).1.foldlM fs.step (fs.start p) = .ok between ∧
      fs.contentAt? between = some none ∧
      place = ((Component.ofSegment? last).map (Component.follow between)).getD between ∧
      found = fs.root.at? place ∧
      (fs.contentAt? place ≠ some none → place = between ++ [last]) := by
  unfold target at htarget
  cases hrefusal : refusal? p with
  | some e =>
    rw [hrefusal] at htarget
    cases htarget
  | none =>
    rw [hrefusal] at htarget
    dsimp only at htarget
    rw [bind_eq_ok_iff] at htarget
    obtain ⟨between, hbetween, htarget⟩ := htarget
    refine ⟨between, _, filterMap_splitLast _, hbetween, ?_⟩
    cases hstep : fs.step between (splitLast p.segments).2 with
    | ok next =>
      rw [hstep] at htarget
      cases htarget
      obtain ⟨hdirectory, -, hname⟩ := contentAt?_of_step hstep
      exact ⟨hdirectory, eq_follow_of_step hstep, rfl, hname⟩
    | error e =>
      rw [hstep] at htarget
      cases e
      case notFound =>
        cases htarget
        -- only the last segment can be missing: something is where it is followed from
        have hstart : fs.contentAt? (fs.start p) ≠ none := by
          rw [contentAt?_start hworking]
          exact Option.some_ne_none _
        have hthere := contentAt?_last_of_foldlM_step hstart hbetween
        have hsteps := fs.stepsTo_step between (splitLast p.segments).2
        rw [hstep] at hsteps
        cases hsteps with
        | refused _ hmissing => exact absurd (hmissing rfl) hthere
        | missing hdirectory hname hfree =>
          have hnone := Option.map_eq_none_iff.mp hfree
          exact ⟨hdirectory, by rw [hname]; rfl, hnone.symm, fun _ => rfl⟩
      all_goals cases htarget

/-- An operation takes place where the components of the path lead, through directories. -/
theorem place_of_target {p : Path} {found : Option FileTree}
    (hworking : fs.contentAt? fs.working = some none) (htarget : fs.target p = .ok (place, found)) :
    place = p.place fs.working ∧ found = fs.root.at? (p.place fs.working) ∧ fs.Passes p ∧
      (fs.contentAt? (p.place fs.working) ≠ some none →
        ∃ above name, p.place fs.working = above ++ [name] ∧ fs.contentAt? above = some none) := by
  obtain ⟨between, last, hsegments, hbetween, hdirectory, hplace, hfound, hname⟩ :=
    exists_between_of_target hworking htarget
  have hwalk := eq_foldl_of_foldlM_step hbetween
  have hend : place = p.place fs.working := by
    rw [Path.place, Path.components_eq, List.foldl_append, foldl_origin, hsegments,
      List.foldl_append, ← hwalk, hplace]
    cases Component.ofSegment? last <;> rfl
  rw [← hend]
  refine ⟨rfl, hfound, passes_of_prefix hworking fun cs hcs hproper => ?_,
    fun hnot => ⟨between, last, hname hnot, hdirectory⟩⟩
  -- the longest proper part may be all of the segments before the last one
  by_cases hall : cs = (splitLast p.segments).1.filterMap Component.ofSegment?
  · rw [hall, ← hwalk]
    exact hdirectory
  · refine contentAt?_of_foldlM_step hbetween ?_ hall
    rw [hsegments] at hcs hproper
    cases hlast : Component.ofSegment? last with
    | none =>
      rw [hlast] at hcs
      simpa using hcs
    | some c =>
      rw [hlast] at hcs hproper
      exact (List.prefix_concat_iff.mp hcs).resolve_left hproper

theorem passes_of_isDirectory {p : Path} (hworking : fs.contentAt? fs.working = some none)
    (hdirectory : fs.isDirectory p = true) : fs.Passes p := by
  have hlocate := exists_locate_of_isDirectory hdirectory
  unfold locate at hlocate
  split at hlocate
  · cases hlocate
  · exact passes_of_prefix hworking fun cs hcs hproper =>
      contentAt?_of_foldlM_step hlocate hcs hproper

theorem contentAt?_of_isDirectory {p : Path} (hdirectory : fs.isDirectory p = true) :
    fs.contentAt? (p.place fs.working) = some none := by
  have hlocate := exists_locate_of_isDirectory hdirectory
  unfold isDirectory lookup at hdirectory
  rw [hlocate] at hdirectory
  dsimp only at hdirectory
  rw [contentAt?, FileTree.contentAt?_eq_directory_iff]
  cases hfound : fs.root.at? (p.place fs.working) with
  | none =>
    rw [hfound] at hdirectory
    cases hdirectory
  | some found =>
    rw [hfound] at hdirectory
    cases found with
    | file content => cases hdirectory
    | directory entries => exact ⟨entries, rfl⟩

theorem contentAt?_of_mem_way {p : Path} (hpasses : fs.Passes p)
    (hplace : fs.contentAt? (p.place fs.working) = some none) {q : List String}
    (hq : q ∈ p.way fs.working) : fs.contentAt? q = some none := by
  obtain ⟨cs, hcs, rfl⟩ := Path.mem_way_iff.mp hq
  by_cases hall : cs = p.components
  · rw [hall]
    exact hplace
  · exact hpasses cs hcs hall

/-! ## Writing a file

The only place that changes is the one of the path. -/

theorem working_write {p : Path} {content : String} (hwrite : fs.write p content = .ok fs') :
    fs'.working = fs.working := by
  unfold write at hwrite
  rw [bind_eq_ok_iff] at hwrite
  obtain ⟨_, -, hwrite⟩ := hwrite
  split at hwrite
  · cases hwrite
  · obtain rfl := pure_eq_ok_iff.mp hwrite
    rfl

/-- **Writing changes what is at the place of the path**, where there was no directory. Writing is
following the path up to its last segment and putting a file there. -/
theorem contentAt?_write {p : Path} {content : String}
    (hworking : fs.contentAt? fs.working = some none) (hwrite : fs.write p content = .ok fs') :
    fs.contentAt? (p.place fs.working) ≠ some none ∧
      ∀ q, fs'.contentAt? q =
        if q = p.place fs.working then some (some content) else fs.contentAt? q := by
  unfold write at hwrite
  rw [bind_eq_ok_iff] at hwrite
  obtain ⟨⟨place, found⟩, htarget, hwrite⟩ := hwrite
  obtain ⟨rfl, hfound, -, habove⟩ := place_of_target hworking htarget
  -- a directory is not overwritten
  have hfree : fs.contentAt? (p.place fs.working) ≠ some none := by
    rw [contentAt?, ne_eq, FileTree.contentAt?_eq_directory_iff]
    rintro ⟨entries, hentries⟩
    rw [hfound, hentries] at hwrite
    cases hwrite
  refine ⟨hfree, fun q => ?_⟩
  obtain ⟨above, name, hplace, hdirectory⟩ := habove hfree
  have hput : fs' = { fs with root := .put (.file content) (p.place fs.working) fs.root } := by
    split at hwrite
    · cases hwrite
    · next heq =>
      cases heq
      exact ((pure_eq_ok_iff).mp hwrite).symm
  rw [hput]
  rw [hplace] at hfree ⊢
  exact FileTree.contentAt?_put (fun _ => rfl) hdirectory hfree q

theorem contentAt?_write_of_directory {p : Path} {content : String} {q : List String}
    (hworking : fs.contentAt? fs.working = some none) (hwrite : fs.write p content = .ok fs')
    (hq : fs.contentAt? q = some none) : fs'.contentAt? q = some none := by
  obtain ⟨hfree, hchange⟩ := contentAt?_write hworking hwrite
  have hne : q ≠ (p.place fs.working) := by
    rintro rfl
    exact hfree hq
  rw [hchange, if_neg hne, hq]

/-- The working directory stays where it is, and is still there. -/
theorem contentAt?_working_write {p : Path} {content : String}
    (hworking : fs.contentAt? fs.working = some none) (hwrite : fs.write p content = .ok fs') :
    fs'.contentAt? fs'.working = some none := by
  rw [working_write hwrite]
  exact contentAt?_write_of_directory hworking hwrite hworking

/-! ## Creating directories

What is missing on the way of the path is created, and it was not there before. This is kept by one
directory after the other, so a run that creates several is an induction on their number. -/

/-- Directories are created at some of the places, where nothing was, and nothing else changes. In
particular no file is touched and no directory loses an entry. -/
structure CreatesOn (places : List (List String)) (fs fs' : FileSystem) : Prop where
  working : fs'.working = fs.working
  changes : ∀ q, fs'.contentAt? q = fs.contentAt? q ∨
    q ∈ places ∧ fs.contentAt? q = none ∧ fs'.contentAt? q = some none

namespace CreatesOn

variable {places others : List (List String)} {fs₁ fs₂ fs₃ : FileSystem}

theorem refl (places : List (List String)) (fs : FileSystem) : CreatesOn places fs fs where
  working := rfl
  changes _ := .inl rfl

theorem mono (hcreates : CreatesOn places fs₁ fs₂) (hplaces : places ⊆ others) :
    CreatesOn others fs₁ fs₂ where
  working := hcreates.working
  changes q := (hcreates.changes q).imp_right fun ⟨hq, hchange⟩ => ⟨hplaces hq, hchange⟩

theorem contentAt?_of_directory (hcreates : CreatesOn places fs₁ fs₂) {q : List String}
    (hq : fs₁.contentAt? q = some none) : fs₂.contentAt? q = some none := by
  rcases hcreates.changes q with hsame | ⟨-, hnone, -⟩
  · rw [hsame, hq]
  · rw [hq] at hnone
    cases hnone

theorem trans (hfirst : CreatesOn places fs₁ fs₂) (hsecond : CreatesOn places fs₂ fs₃) :
    CreatesOn places fs₁ fs₃ := by
  refine ⟨hsecond.working.trans hfirst.working, fun q => ?_⟩
  rcases hsecond.changes q with hsame | ⟨hq, hnone, hnew⟩
  · rw [hsame]
    exact hfirst.changes q
  · rcases hfirst.changes q with hsame | ⟨-, -, hold⟩
    · exact .inr ⟨hq, by rw [← hsame, hnone], hnew⟩
    · rw [hold] at hnone
      cases hnone

/-- The working directory stays where it is, and is still there. -/
theorem contentAt?_working (hcreates : CreatesOn places fs₁ fs₂)
    (hworking : fs₁.contentAt? fs₁.working = some none) :
    fs₂.contentAt? fs₂.working = some none := by
  rw [hcreates.working]
  exact hcreates.contentAt?_of_directory hworking

end CreatesOn

theorem createsOn_of_makeDirectory {p : Path} (hworking : fs.contentAt? fs.working = some none)
    (hmake : fs.makeDirectory p = .ok fs') :
    CreatesOn (p.way fs.working) fs fs' ∧ fs'.contentAt? (p.place fs.working) = some none ∧
      fs.Passes p := by
  unfold makeDirectory at hmake
  rw [bind_eq_ok_iff] at hmake
  obtain ⟨⟨place, found⟩, htarget, hmake⟩ := hmake
  obtain ⟨rfl, hfound, hpasses, habove⟩ := place_of_target hworking htarget
  cases found with
  | some tree => cases hmake
  | none =>
    have hnone : fs.contentAt? (p.place fs.working) = none := by
      rw [contentAt?, FileTree.contentAt?, ← hfound]
      rfl
    have hfree : fs.contentAt? (p.place fs.working) ≠ some none := by
      rw [hnone]
      exact nofun
    obtain ⟨above, name, hplace, hdirectory⟩ := habove hfree
    -- one place changes, and it was free
    have hput : ∀ q, fs'.contentAt? q =
        if q = p.place fs.working then some none else fs.contentAt? q := by
      obtain rfl := pure_eq_ok_iff.mp hmake
      rw [hplace] at hfree ⊢
      exact FileTree.contentAt?_put (fun _ => rfl) hdirectory hfree
    have hworking' : fs'.working = fs.working := by
      obtain rfl := pure_eq_ok_iff.mp hmake
      rfl
    refine ⟨⟨hworking', fun q => ?_⟩, by rw [hput, if_pos rfl], hpasses⟩
    rw [hput]
    split
    · next hq => exact .inr ⟨hq ▸ p.place_mem_way fs.working, by rw [hq, hnone], rfl⟩
    · exact .inl rfl

/-- A directory is made, or is there already, once those above it have been seen to if need be. -/
theorem exists_of_makeDirectoriesUp {fuel : Nat} {p : Path}
    (hmake : fs.makeDirectoriesUp (fuel + 1) p = .ok fs') :
    p.text = "" ∧ fs' = fs ∨ ∃ between,
      (between = fs ∨
        ∃ above, p.parent? = some above ∧ fs.makeDirectoriesUp fuel above = .ok between) ∧
      (between.makeDirectory p = .ok fs' ∨ between.isDirectory p = true ∧ fs' = between) := by
  rw [makeDirectoriesUp] at hmake
  -- a blank path is the working directory, of which nothing is asked
  split at hmake
  · next hblank =>
    cases hmake
    exact .inl ⟨hblank, rfl⟩
  right
  split at hmake
  · next fs₁ hfirst =>
    cases hmake
    exact ⟨fs, .inl rfl, .inl hfirst⟩
  -- the directory above is missing: it is created first, and then the directory is tried again
  · split at hmake
    · cases hmake
    next above habove =>
    split at hmake
    · cases hmake
    next between hbetween =>
    refine ⟨between, .inr ⟨above, habove, hbetween⟩, ?_⟩
    split at hmake
    · next fs₁ hsecond =>
      cases hmake
      exact .inl hsecond
    · split at hmake
      · next hdirectory =>
        cases hmake
        exact .inr ⟨hdirectory, rfl⟩
      · cases hmake
  · split at hmake
    · next hdirectory =>
      cases hmake
      exact ⟨fs, .inl rfl, .inr ⟨hdirectory, rfl⟩⟩
    · cases hmake

/-- What is created lies on the way of the path: by induction on the number of directories that may
still be seen to, the way of each being part of the way of the one below it. -/
theorem createsOn_of_makeDirectoriesUp {fuel : Nat} {p : Path}
    (hworking : fs.contentAt? fs.working = some none)
    (hmake : fs.makeDirectoriesUp fuel p = .ok fs') : CreatesOn (p.way fs.working) fs fs' := by
  induction fuel generalizing p fs' with
  | zero =>
    cases hmake
    exact .refl _ _
  | succ fuel ih =>
    obtain ⟨-, rfl⟩ | ⟨between, habove, hlast⟩ := exists_of_makeDirectoriesUp hmake
    · exact .refl _ _
    -- what is created above lies on the way of the path above, which is part of this way
    have hfirst : CreatesOn (p.way fs.working) fs between := by
      rcases habove with rfl | ⟨above, habove, hbetween⟩
      · exact .refl _ _
      · exact (ih hbetween).mono (Path.way_subset_of_parent? habove fs.working)
    rcases hlast with hlast | ⟨-, rfl⟩
    · have hlater := (createsOn_of_makeDirectory (hfirst.contentAt?_working hworking) hlast).1
      rw [hfirst.working] at hlater
      exact hfirst.trans hlater
    · exact hfirst

/-- **Creating a directory with those above it** creates directories on the way of the path only,
and all of the way is there afterwards. The directories above are made first when one is missing,
and each of them is on the way of the path. -/
theorem createsOn_of_makeDirectories {p : Path} (hworking : fs.contentAt? fs.working = some none)
    (hmake : fs.makeDirectories p = .ok fs') :
    CreatesOn (p.way fs.working) fs fs' ∧ ∀ q ∈ p.way fs.working, fs'.contentAt? q = some none := by
  have hcreates : CreatesOn (p.way fs.working) fs fs' :=
    createsOn_of_makeDirectoriesUp hworking hmake
  refine ⟨hcreates, fun q hq => ?_⟩
  obtain ⟨hblank, -⟩ | ⟨between, habove, hlast⟩ := exists_of_makeDirectoriesUp hmake
  · -- the empty path has the working directory on its way, and nothing else
    obtain rfl : p = ⟨""⟩ := by
      cases p
      exact congrArg Path.mk hblank
    obtain rfl : q = fs.working := List.mem_singleton.mp hq
    exact hcreates.contentAt?_of_directory hworking
  · have hbetween : between.contentAt? between.working = some none := by
      rcases habove with rfl | ⟨above, -, habove⟩
      · exact hworking
      · exact (createsOn_of_makeDirectoriesUp hworking habove).contentAt?_working hworking
    rw [← hcreates.working] at hq
    -- the last directory was made below those on its way, or was there with them
    rcases hlast with hlast | ⟨hdirectory, rfl⟩
    · obtain ⟨hlater, hplace, hpasses⟩ := createsOn_of_makeDirectory hbetween hlast
      have hpasses' : fs'.Passes p := fun cs hcs hproper => by
        rw [hlater.working]
        exact hlater.contentAt?_of_directory (hpasses cs hcs hproper)
      exact contentAt?_of_mem_way hpasses' (hlater.working ▸ hplace) hq
    · exact contentAt?_of_mem_way (passes_of_isDirectory hbetween hdirectory)
        (contentAt?_of_isDirectory hdirectory) hq

end FileSystem

end MemoryHierarchy
