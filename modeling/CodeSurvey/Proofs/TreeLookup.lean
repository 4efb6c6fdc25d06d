import CodeSurvey.Proofs.WalkOrder

/-!
# Trees without links

In a tree without links that stands somewhere in a file system, paths lead to what is reached by
their names in the tree, and a walk meets the same things wherever the tree stands.

## Key results

- `FileSystem.bind_resolveWith`: plain names lead to what is reached by them in the tree
- `FileSystem.find?_joinAll`: what a path that goes down the tree leads to
- `FileSystem.stands_of_canonical?`: the path without links of a directory
- `FileSystem.contains_joinAll`: whether a path that goes down the tree leads anywhere
- `FileSystem.visits_of_holds`: what a walk meets, whether links are followed or not
-/

namespace CodeSurvey

namespace Entry

/-- No link stands in a tree. -/
inductive LinkFree : Entry → Prop
  | file (content : ByteArray) : LinkFree (.file content)
  | directory {entries : List (NativeText × Entry)}
      (children : ∀ child ∈ entries, LinkFree child.2) : LinkFree (.directory entries)

/-! ## Looking things up -/

theorem at?_append (entry : Entry) (front back : List NativeText) :
    entry.at? (front ++ back) = (entry.at? front).bind fun reached => reached.at? back := by
  induction front generalizing entry with
  | nil => rfl
  | cons name rest ih =>
    rw [List.cons_append, at?, at?]
    cases entry.child? name with
    | none => rfl
    | some child => exact ih child

/-- What is reached by names is reached step by step. -/
theorem hasPath_of_at? {entry reached : Entry} {names : List NativeText}
    (h : entry.at? names = some reached) : entry.HasPath names := by
  induction names generalizing entry with
  | nil => exact .here entry
  | cons name rest ih =>
    rw [at?, Option.bind_eq_some_iff] at h
    obtain ⟨child, hchild, hrest⟩ := h
    cases entry with
    | file content => cases hchild
    | link target => cases hchild
    | directory entries =>
      obtain ⟨front, back, rfl, -⟩ := List.lookup_eq_some_iff.1 hchild
      have hmem : (name, child) ∈ front ++ (name, child) :: back := by simp
      exact HasPath.child hmem (ih hrest)

theorem LinkFree.at?_ne_link {entry : Entry} (h : entry.LinkFree) (names : List NativeText)
    (target : NativeText) : entry.at? names ≠ some (.link target) := by
  induction names generalizing entry with
  | nil =>
    rintro heq
    obtain rfl := Option.some.inj heq
    cases h
  | cons name rest ih =>
    intro heq
    rw [at?, Option.bind_eq_some_iff] at heq
    obtain ⟨child, hchild, hrest⟩ := heq
    cases h with
    | file content => cases hchild
    | directory hchildren =>
      obtain ⟨front, back, rfl, -⟩ := List.lookup_eq_some_iff.1 hchild
      exact ih (hchildren (name, child) (by simp)) hrest

/-! ## Walks -/

/-- A walk asks only of directories in the tree whether it can look into them. -/
theorem visits_congr (skip : NativeText → Bool) {opens others : List NativeText → Bool}
    (entry : Entry) :
    ∀ names, (∀ below, entry.HasPath below → opens (names ++ below) = others (names ++ below)) →
      visits skip opens names entry = visits skip others names entry := by
  induction entry using treeInduction with
  | file content => exact fun _ _ => rfl
  | link target => exact fun _ _ => rfl
  | directory entries ih =>
    intro names hopens
    have hhere := hopens [] (.here _)
    rw [List.append_nil] at hhere
    have hchildren : visitsOf skip opens names entries = visitsOf skip others names entries := by
      rw [visitsOf_eq_map, visitsOf_eq_map]
      apply List.map_congr_left
      intro child hchild
      have hchild := ih child hchild (names ++ [child.1]) fun below hbelow => by
        simpa using hopens (child.1 :: below) (.child hchild hbelow)
      rw [visitsAt, visitsAt, hchild]
    rw [visits, visits, hhere, hchildren]

/-- An entry in which following links does not depend on where it stands, and with which nothing is
found that was not there. -/
def IsExpanded (skip : NativeText → Bool) (entry expanded : Entry) : Prop :=
  (∀ follow trail, expandWith skip follow trail entry = some expanded) ∧
    ∀ names, expanded.HasPath names → entry.HasPath names

/-- Ignored directories are left out, all other entries are expanded one by one. -/
theorem exists_expandAll (skip : NativeText → Bool) {entries : List (NativeText × Entry)}
    (h : ∀ child ∈ entries, ∃ expanded, IsExpanded skip child.2 expanded) :
    ∃ expanded : List (NativeText × Entry),
      (∀ follow trail, expandAll skip follow trail entries = expanded) ∧
      ∀ child ∈ expanded, ∃ original ∈ entries, original.1 = child.1 ∧
        ∀ names, child.2.HasPath names → original.2.HasPath names := by
  induction entries with
  | nil => exact ⟨[], fun _ _ => rfl, by simp⟩
  | cons child rest ih =>
    obtain ⟨hchild, hrest⟩ := List.forall_mem_cons.1 h
    obtain ⟨front, hfront, hpaths⟩ := hchild
    obtain ⟨back, hback, hothers⟩ := ih hrest
    have hothers : ∀ other ∈ back, ∃ original ∈ child :: rest, original.1 = other.1 ∧
        ∀ names, other.2.HasPath names → original.2.HasPath names := fun other hother => by
      obtain ⟨original, horiginal, hsame⟩ := hothers other hother
      exact ⟨original, List.mem_cons_of_mem child horiginal, hsame⟩
    by_cases hskip : (child.2.isDirectory && skip child.1) = true
    · refine ⟨back, fun follow trail => ?_, hothers⟩
      rw [expandAll, if_pos hskip, hback]
    · refine ⟨(child.1, front) :: back, fun follow trail => ?_, ?_⟩
      · rw [expandAll, if_neg hskip, hfront, hback]
      · rw [List.forall_mem_cons]
        exact ⟨⟨child, List.mem_cons_self, rfl, hpaths⟩, hothers⟩

/-- Where no link stands, following links leaves out ignored directories and changes nothing
else. -/
theorem LinkFree.exists_isExpanded (skip : NativeText → Bool) {entry : Entry} (h : entry.LinkFree) :
    ∃ expanded, IsExpanded skip entry expanded := by
  induction entry using treeInduction with
  | file content => exact ⟨.file content, fun _ _ => rfl, fun _ => id⟩
  | link target => cases h
  | directory entries ih =>
    cases h with
    | directory hchildren =>
      obtain ⟨expanded, hexpanded, hpaths⟩ :=
        exists_expandAll skip fun child hchild => ih child hchild (hchildren child hchild)
      refine ⟨.directory expanded, fun follow trail => ?_, fun names hnames => ?_⟩
      · rw [expandWith, hexpanded]
      · cases hnames with
        | here => exact .here _
        | child hchild hrest =>
          obtain ⟨original, horiginal, hname, hbelow⟩ := hpaths _ hchild
          exact hname ▸ .child horiginal (hbelow _ hrest)

end Entry

namespace FileSystem

/-! ## Paths -/

/-- Plain names lead to what is reached by them in the tree, unless a link stands on the way. -/
theorem bind_resolveWith {root : Entry} {links : Nat}
    {follow : Steps → List NativeText → Option Place} {steps : Steps} {names : List NativeText}
    (hsteps : root.at? steps.names = some (steps.target root))
    (hplain : ∀ name ∈ names, name.IsPlain)
    (hlinks : ∀ front back target, names = front ++ back →
      (steps.target root).at? front ≠ some (.link target)) :
    ((resolveWith root links follow steps names).bind fun place => root.at? place.names) =
      (steps.target root).at? names := by
  induction names generalizing steps with
  | nil => simp [resolveWith, hsteps, Entry.at?]
  | cons name rest ih =>
    rw [List.forall_mem_cons] at hplain
    obtain ⟨hname, hrest⟩ := hplain
    cases htarget : steps.target root with
    | file content => simp [resolveWith, htarget, Entry.at?, Entry.child?]
    | link target => simp [resolveWith, htarget, Entry.at?, Entry.child?]
    | directory entries =>
      rw [htarget] at hlinks hsteps
      cases hchild : entries.lookup name with
      | none =>
        -- nothing is there: the place is free, or there is no such place
        have hstep : resolveWith root links follow steps (name :: rest) =
            if rest.isEmpty then some ⟨steps.names ++ [name], links⟩ else none := by
          simp [resolveWith, htarget, hname.ne_empty, hname.ne_dot, hname.ne_dots, hchild]
        rw [hstep]
        split <;> simp [Entry.at?_append, hsteps, Entry.at?, Entry.child?, hchild]
      | some child =>
        have hdown : ∀ below, (Entry.directory entries).at? (name :: below) = child.at? below := by
          simp [Entry.at?, Entry.child?, hchild]
        have hstep : resolveWith root links follow steps (name :: rest) =
            resolveWith root links follow ((name, child) :: steps) rest := by
          cases child with
          | link target => exact absurd (hdown []) (hlinks [name] rest target rfl)
          | _ => simp [resolveWith, htarget, hname.ne_empty, hname.ne_dot, hname.ne_dots, hchild]
        rw [hstep, hdown]
        refine @ih ((name, child) :: steps) ?_ hrest fun front back target hsplit => ?_
        · have hnames : Steps.names ((name, child) :: steps) = steps.names ++ [name] := by
            simp [Steps.names]
          rw [hnames, Entry.at?_append, hsteps, Option.bind_some, hdown]
          rfl
        · rw [Steps.target, ← hdown]
          exact hlinks (name :: front) back target (by rw [hsplit, List.cons_append])

/-- The slash at the start of an absolute path leads nowhere else. -/
theorem follow?_absolute {system : FileSystem} {entries : List (NativeText × Entry)}
    (hroot : system.root = .directory entries) {names : List String}
    (hplain : ∀ name ∈ names, IsPlainName name) :
    system.follow? (.absolute names) =
      resolve system.root linkLimit [] (names.map .text) := by
  have hempty : (Path.absolute names).text ≠ "" := by simp [Path.absolute]
  have habsolute : (Path.absolute names).isAbsolute = true := by
    simp [Path.isAbsolute, Path.absolute, String.front?_eq]
  rw [follow?, if_neg hempty, segmentsOf, if_pos habsolute, Path.segments_absolute]
  -- the text of the root itself has one more empty segment
  by_cases hne : names = []
  · subst hne
    rw [String.intercalate_nil]
    simp [resolve, linkLimit, resolveWith, Steps.target, hroot, Path.segments, Path.segmentsFrom]
  · rw [Path.segments_intercalate hne fun name hname => (hplain name hname).no_slash]
    simp [resolve, linkLimit, resolveWith, Steps.target, hroot]

/-- The plain names of what stands in the tree lead there from the root, unless it is a link. -/
theorem follow?_absolute_of_at? {system : FileSystem} {entries : List (NativeText × Entry)}
    (hroot : system.root = .directory entries) {names : List String}
    (hplain : ∀ name ∈ names, IsPlainName name) {entry : Entry}
    (hentry : system.root.at? (names.map .text) = some entry)
    (hlink : ∀ target, entry ≠ .link target) :
    system.follow? (.absolute names) = some ⟨names.map .text, linkLimit⟩ := by
  have hsteps := NativeText.isPlain_of_mem_map_text hplain
  rw [follow?_absolute hroot hplain]
  exact @resolveWith_of_at? system.root entry linkLimit (resolve system.root (linkLimit - 1)) []
    (names.map .text) hentry hlink fun name hname =>
      ⟨(hsteps name hname).ne_empty, (hsteps name hname).ne_dot, (hsteps name hname).ne_dots⟩

/-! ## Trees in a file system -/

/-- No link stands on the way from the root of a tree to a directory without links and down from
there. -/
theorem at?_ne_link_of_linkFree {root : Entry} {entries : List (NativeText × Entry)}
    (hlinks : (Entry.directory entries).LinkFree) {names below front back : List NativeText}
    (hentry : root.at? names = some (.directory entries))
    (hsplit : names ++ below = front ++ back) (target : NativeText) :
    root.at? front ≠ some (.link target) := by
  intro hlink
  rcases List.append_eq_append_iff.1 hsplit with ⟨gap, rfl, -⟩ | ⟨gap, rfl, -⟩
  · -- the link would stand in the directory
    rw [Entry.at?_append, hentry] at hlink
    exact hlinks.at?_ne_link gap target hlink
  · -- the link would lie above the directory
    rw [Entry.at?_append, hlink] at hentry
    cases gap with
    | nil => exact nomatch hentry
    | cons name rest => simp [Entry.at?, Entry.child?] at hentry

/-- A directory stands at the end of an absolute path. -/
def Stands (system : FileSystem) (root : Path) (entries : List (NativeText × Entry)) : Prop :=
  ∃ names : List String, (∀ name ∈ names, IsPlainName name) ∧ root = .absolute names ∧
    system.root.at? (names.map .text) = some (.directory entries)

/-- A directory stands at the end of an absolute path, and no path down from it is too long to be
looked at. -/
structure Holds (system : FileSystem) (root : Path) (entries : List (NativeText × Entry)) :
    Prop where
  place : ∃ names : List String, (∀ name ∈ names, IsPlainName name) ∧ root = .absolute names ∧
    system.root.at? (names.map .text) = some (.directory entries)
  reach : ∀ names : List String, (Entry.directory entries).HasPath (names.map .text) →
    isWithinReach (root.joinAll names) = true

section Stands

variable {system : FileSystem} {root : Path} {entries : List (NativeText × Entry)}
variable (h : system.Stands root entries)

include h

/-- The tree that holds a directory starts with one. -/
theorem exists_root_of_stands : ∃ others, system.root = .directory others := by
  obtain ⟨names, -, -, hentry⟩ := h
  cases names with
  | nil => exact ⟨entries, Option.some.inj hentry⟩
  | cons name rest =>
    cases hroot : system.root with
    | directory others => exact ⟨others, rfl⟩
    | file content => simp [hroot, Entry.at?, Entry.child?] at hentry
    | link target => simp [hroot, Entry.at?, Entry.child?] at hentry

/-- Plain names below a directory without links lead to what is reached by them, unless the path is
too long. -/
theorem find?_joinAll (hlinks : (Entry.directory entries).LinkFree) {names : List String}
    (hplain : ∀ name ∈ names, IsPlainName name) :
    system.find? (root.joinAll names) =
      if isWithinReach (root.joinAll names) then (Entry.directory entries).at? (names.map .text)
      else none := by
  obtain ⟨others, hroot⟩ := exists_root_of_stands h
  obtain ⟨front, hfront, hpath, hentry⟩ := h
  rw [find?, place?]
  split
  · have hall : ∀ name ∈ front ++ names, IsPlainName name := fun name hname =>
      (List.mem_append.1 hname).elim (hfront name) (hplain name)
    have hdown := @bind_resolveWith system.root linkLimit (resolve system.root (linkLimit - 1)) []
      ((front ++ names).map .text) rfl (NativeText.isPlain_of_mem_map_text hall)
      fun start back target hsplit =>
        at?_ne_link_of_linkFree hlinks hentry (List.map_append.symm.trans hsplit) target
    have hat : system.root.at? ((front ++ names).map .text) =
        (Entry.directory entries).at? (names.map .text) := by
      rw [List.map_append, Entry.at?_append, hentry]
      rfl
    rw [hpath, Path.joinAll_absolute hfront hplain, follow?_absolute hroot hall, ← hat]
    exact hdown
  · rfl

end Stands

/-! ### Paths without links -/

/-- Steps that go down a tree, none of them to a link. -/
def Steps.GoDown (root : Entry) : Steps → Prop
  | [] => True
  | (name, entry) :: above =>
    (Steps.target root above).child? name = some entry ∧ (∀ target, entry ≠ .link target) ∧
      GoDown root above

/-- Steps down a tree lead to what is reached by their names. -/
theorem Steps.GoDown.at? {root : Entry} {steps : Steps} (h : GoDown root steps) :
    root.at? steps.names = some (steps.target root) := by
  induction steps with
  | nil => rfl
  | cons step above ih =>
    obtain ⟨name, entry⟩ := step
    obtain ⟨hchild, -, habove⟩ := h
    have hnames : Steps.names ((name, entry) :: above) = Steps.names above ++ [name] := by
      simp [Steps.names]
    rw [hnames, Entry.at?_append, ih habove, Option.bind_some, Entry.at?, hchild]
    rfl

theorem Steps.GoDown.drop_one {root : Entry} {steps : Steps} (h : GoDown root steps) :
    GoDown root (steps.drop 1) := by
  cases steps with
  | nil => exact h
  | cons step above => exact h.2.2

/-- A place to which steps lead is no link. -/
theorem Steps.GoDown.target_ne_link {root : Entry} (hroot : ∀ target, root ≠ .link target)
    {steps : Steps} (h : GoDown root steps) (target : NativeText) :
    steps.target root ≠ .link target := by
  cases steps with
  | nil => exact hroot target
  | cons step above => exact h.2.1 target

/-- What a path leads to is no link, as a link is replaced by what it says. -/
theorem at?_resolveWith_ne_link {root : Entry} (hroot : ∀ target, root ≠ .link target) {links : Nat}
    {follow : Steps → List NativeText → Option Place}
    (hfollow : ∀ steps segments place, Steps.GoDown root steps →
      follow steps segments = some place → ∀ target, root.at? place.names ≠ some (.link target))
    {steps : Steps} {segments : List NativeText} (hsteps : Steps.GoDown root steps) {place : Place}
    (h : resolveWith root links follow steps segments = some place) (target : NativeText) :
    root.at? place.names ≠ some (.link target) := by
  induction segments generalizing steps with
  | nil =>
    obtain rfl := Option.some.inj h
    rw [hsteps.at?]
    exact fun heq => hsteps.target_ne_link hroot target (Option.some.inj heq)
  | cons segment rest ih =>
    cases htarget : steps.target root with
    | file content => simp [resolveWith, htarget] at h
    | link other => simp [resolveWith, htarget] at h
    | directory entries =>
      simp only [resolveWith, htarget] at h
      by_cases hstay : (segment = "" || segment = ".") = true
      · rw [if_pos hstay] at h
        exact ih hsteps h
      · rw [if_neg hstay] at h
        by_cases hup : segment = ".."
        · rw [if_pos hup] at h
          exact ih hsteps.drop_one h
        · rw [if_neg hup] at h
          cases hchild : entries.lookup segment with
          | none =>
            -- the place is free
            simp only [hchild, Option.ite_none_right_eq_some, Option.some.injEq] at h
            obtain ⟨-, rfl⟩ := h
            rw [Entry.at?_append, hsteps.at?, htarget]
            simp [Entry.at?, Entry.child?, hchild]
          | some child =>
            have hdown : (∀ other, child ≠ .link other) →
                Steps.GoDown root ((segment, child) :: steps) := fun hnot => by
              refine ⟨?_, hnot, hsteps⟩
              rw [htarget]
              exact hchild
            cases child with
            | link other =>
              simp only [hchild] at h
              refine hfollow _ _ place ?_ h target
              split
              · trivial
              · exact hsteps
            | file content => exact ih (hdown (by simp)) (by simpa only [hchild] using h)
            | directory below => exact ih (hdown (by simp)) (by simpa only [hchild] using h)

theorem at?_resolve_ne_link {root : Entry} (hroot : ∀ target, root ≠ .link target) (links : Nat) :
    ∀ steps segments place, Steps.GoDown root steps →
      resolve root links steps segments = some place →
      ∀ target, root.at? place.names ≠ some (.link target) := by
  induction links with
  | zero =>
    intro steps segments place hsteps h
    exact at?_resolveWith_ne_link hroot (fun _ _ _ _ hnone => absurd hnone (by simp)) hsteps h
  | succ links ih =>
    intro steps segments place hsteps h
    exact at?_resolveWith_ne_link hroot ih hsteps h

/-- An absolute path leads nowhere in a tree that does not start with a directory. -/
theorem exists_directory_of_follow? {system : FileSystem} {names : List String} {place : Place}
    (h : system.follow? (.absolute names) = some place) :
    ∃ entries, system.root = .directory entries := by
  have hempty : (Path.absolute names).text ≠ "" := by simp [Path.absolute]
  have habsolute : (Path.absolute names).isAbsolute = true := by
    simp [Path.isAbsolute, Path.absolute, String.front?_eq]
  rw [follow?, if_neg hempty, segmentsOf, if_pos habsolute, Path.segments_absolute] at h
  cases hroot : system.root with
  | directory entries => exact ⟨entries, rfl⟩
  | file content => simp [resolve, linkLimit, resolveWith, Steps.target, hroot] at h
  | link target => simp [resolve, linkLimit, resolveWith, Steps.target, hroot] at h

/-- The path without links of a directory leads to it step by step. -/
theorem stands_of_canonical? {system : FileSystem} (hformed : system.root.WellFormed)
    {path root : Path} (hcanonical : system.canonical? path = some root)
    (hdirectory : system.isDirectory root = true) :
    ∃ entries, system.Stands root entries ∧ system.find? root = some (.directory entries) := by
  rw [canonical?] at hcanonical
  split at hcanonical
  · exact nomatch hcanonical
  · rename_i place hplace
    split at hcanonical
    · rename_i hsome
      obtain ⟨names, hnames, rfl⟩ := Option.map_eq_some_iff.1 hcanonical
      obtain ⟨places, links⟩ := place
      obtain rfl : places = names.map .text := NativeText.texts?_eq_some_iff.1 hnames
      obtain ⟨entry, hentry⟩ := Option.isSome_iff_exists.1 hsome
      have hplain := NativeText.isPlainName_of_map_text
        (hformed.isPlain_of_hasPath (Entry.hasPath_of_at? hentry))
      rw [isDirectory, Option.any_eq_true] at hdirectory
      obtain ⟨found, hfound, hkind⟩ := hdirectory
      -- what is found at the path without links is what stands there
      have hsame : found = entry := by
        rw [find?, Option.bind_eq_some_iff] at hfound
        obtain ⟨again, hagain, hfound⟩ := hfound
        rw [place?, Option.ite_none_right_eq_some] at hagain
        obtain ⟨-, hagain⟩ := hagain
        obtain ⟨others, hroot⟩ := exists_directory_of_follow? hagain
        have hlink : ∀ target, entry ≠ .link target := by
          intro target heq
          rw [follow?] at hplace
          split at hplace
          · exact nomatch hplace
          · exact at?_resolve_ne_link (by simp [hroot]) _ [] _ _ trivial hplace target
              (heq ▸ hentry)
        have hsteps := follow?_absolute_of_at? hroot hplain hentry hlink
        obtain rfl := Option.some.inj (hagain.symm.trans hsteps)
        exact Option.some.inj (hfound.symm.trans hentry)
      subst hsame
      cases found with
      | directory entries => exact ⟨entries, ⟨names, hplain, rfl, hentry⟩, hfound⟩
      | file content => exact nomatch hkind
      | link target => exact nomatch hkind
    · exact nomatch hcanonical

/-! ### Paths that are short enough -/

section Holds

variable {system : FileSystem} {root : Path} {entries : List (NativeText × Entry)}
variable (h : system.Holds root entries)

include h

/-- The path of a directory leads to it. -/
theorem place?_of_holds : ∃ place, system.place? root = some place ∧
    system.root.at? place.names = some (.directory entries) := by
  obtain ⟨others, hroot⟩ := exists_root_of_stands h.place
  obtain ⟨names, hplain, rfl, hentry⟩ := h.place
  have hreach : isWithinReach (.absolute names) = true := h.reach [] (.here _)
  refine ⟨⟨names.map .text, linkLimit⟩, ?_, hentry⟩
  rw [place?, if_pos hreach]
  exact follow?_absolute_of_at? hroot hplain hentry (by simp)

/-- Plain names below a directory without links lead to what is reached by them, if anything is. -/
theorem contains_joinAll (hlinks : (Entry.directory entries).LinkFree) {names : List String}
    (hplain : ∀ name ∈ names, IsPlainName name) :
    system.contains (root.joinAll names) =
      ((Entry.directory entries).at? (names.map .text)).isSome := by
  rw [contains, find?_joinAll h.place hlinks hplain]
  split
  · rfl
  · rename_i hreach
    -- a path that is too long does not lead down the directory
    cases hreached : (Entry.directory entries).at? (names.map .text) with
    | none => rfl
    | some reached => exact absurd (h.reach names (Entry.hasPath_of_at? hreached)) hreach

/-- Every directory can be looked into. -/
theorem opens_of_holds {names : List NativeText} (hpath : (Entry.directory entries).HasPath names) :
    opens (root.joinNames? names) = true := by
  rw [opens_joinNames?]
  rintro below rfl
  exact h.reach below hpath

/-- A walk meets the same things wherever the directory stands. -/
theorem visits_of_holds (ignore : IgnoreSet) (follow : Bool) {expanded : Entry}
    (hexpanded : Entry.IsExpanded ignore.skips (.directory entries) expanded) :
    system.visits root ignore follow =
      (if follow then expanded else .directory entries).visits ignore.skips (fun _ => true)
        [] := by
  obtain ⟨place, hplace, hentry⟩ := place?_of_holds h
  rw [visits, hplace]
  simp only [hentry]
  cases follow with
  | false =>
    exact Entry.visits_congr _ _ _ fun below hbelow => opens_of_holds h hbelow
  | true =>
    simp only [if_true, hexpanded.1]
    exact Entry.visits_congr _ _ _ fun below hbelow =>
      opens_of_holds h (hexpanded.2 below hbelow)

end Holds

end FileSystem

end CodeSurvey
