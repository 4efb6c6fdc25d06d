import Mathlib.Data.List.Sort
import CodeSurvey.Proofs.TreeAgreement

/-!
# What a walk meets

A walk meets a file or a directory exactly if names lead there from its start, no directory on the
way is ignored or cannot be looked into, and what stands there is no ignored directory. So a walk
that starts further down meets what the outer walk meets there.

## Key results

- `Entry.mem_visits_iff`: what a walk of a tree meets
- `Entry.isMet_append_iff`: what it meets behind a directory that it has come to
- `FileSystem.mem_visits_iff_isMet`: what a walk of a file system meets
- `FileSystem.files_walk_joinAll`: the files of a walk further down
-/

namespace CodeSurvey

namespace Entry

variable (skip : NativeText → Bool) (opens : List NativeText → Bool)

/-- The names `below` lead from an entry that is reached by `names` to a file or a directory that a
walk of the entry comes to. The name of the entry itself does not matter. -/
structure IsMet (names : List NativeText) (entry : Entry) (below : List NativeText)
    (isDirectory : Bool) : Prop where
  found : ∃ reached, entry.at? below = some reached ∧ (∀ target, reached ≠ .link target) ∧
    reached.isDirectory = isDirectory
  opened : ∀ front, front <+: below → front ≠ below → opens (names ++ front) = true
  outside : LeadsOutside skip below
  kept : isDirectory = true → ∀ name ∈ below, skip name = false

variable {skip opens} {names below : List NativeText} {isDirectory : Bool}

theorem isMet_nil_iff {entry : Entry} :
    IsMet skip opens names entry [] isDirectory ↔
      (∀ target, entry ≠ .link target) ∧ entry.isDirectory = isDirectory := by
  constructor
  · intro h
    obtain ⟨reached, hreached, hlink, hkind⟩ := h.found
    obtain rfl := Option.some.inj hreached
    exact ⟨hlink, hkind⟩
  · rintro ⟨hlink, hkind⟩
    exact {
      found := ⟨entry, rfl, hlink, hkind⟩
      opened := fun front hfront hne => absurd (List.prefix_nil.1 hfront) hne
      outside := by simp [LeadsOutside]
      kept := by simp }

/-- Only directories hold anything. -/
theorem isDirectory_of_at?_cons {entry reached : Entry} {name : NativeText} {rest : List NativeText}
    (h : entry.at? (name :: rest) = some reached) : entry.isDirectory = true := by
  cases entry with
  | directory entries => rfl
  | file content => exact nomatch h
  | link target => exact nomatch h

/-- An ignored directory stands behind a name and others exactly if it is the first one, or stands
behind the others. -/
theorem isKept_cons_iff {child reached : Entry} {name : NativeText} {rest : List NativeText}
    (hreached : child.at? rest = some reached) (hkind : reached.isDirectory = isDirectory) :
    LeadsOutside skip (name :: rest) ∧
        (isDirectory = true → ∀ step ∈ name :: rest, skip step = false) ↔
      (child.isDirectory && skip name) = false ∧ LeadsOutside skip rest ∧
        (isDirectory = true → ∀ step ∈ rest, skip step = false) := by
  cases rest with
  | nil =>
    -- the name is the last one, and only a directory is passed over
    obtain rfl := Option.some.inj hreached
    subst hkind
    cases child.isDirectory <;> simp [LeadsOutside]
  | cons next rest =>
    -- something stands below the first name, so that is a directory
    have hdirectory := isDirectory_of_at?_cons hreached
    have houtside : LeadsOutside skip (name :: next :: rest) ↔
        skip name = false ∧ LeadsOutside skip (next :: rest) := by
      unfold LeadsOutside
      rw [List.dropLast_cons_of_ne_nil (List.cons_ne_nil next rest), List.forall_mem_cons]
    rw [hdirectory, Bool.true_and, houtside, and_assoc]
    apply and_congr_right
    intro hname
    rw [List.forall_mem_cons, and_iff_right hname]

/-- A way to a name and others can be looked into where it starts and behind the name. -/
theorem isOpened_cons_iff {name : NativeText} {rest : List NativeText} :
    (∀ front, front <+: name :: rest → front ≠ name :: rest → opens (names ++ front) = true) ↔
      opens names = true ∧
        ∀ front, front <+: rest → front ≠ rest → opens (names ++ [name] ++ front) = true := by
  constructor
  · intro h
    have hhere := h [] List.nil_prefix (List.cons_ne_nil name rest).symm
    rw [List.append_nil] at hhere
    refine ⟨hhere, fun front hfront hne => ?_⟩
    rw [List.append_assoc]
    exact h (name :: front) (List.cons_prefix_cons.2 ⟨rfl, hfront⟩) (by simpa using hne)
  · rintro ⟨hhere, hbehind⟩ front hfront hne
    rcases List.prefix_cons_iff.1 hfront with rfl | ⟨later, rfl, hlater⟩
    · rwa [List.append_nil]
    · have hopened := hbehind later hlater (by simpa using hne)
      rwa [List.append_assoc] at hopened

/-- A walk comes to what an entry of a directory holds exactly if it can look into the directory,
does not pass over the entry and comes there from the entry. -/
theorem isMet_cons_iff {entries : List (NativeText × Entry)} (h : (directory entries).WellFormed)
    {name : NativeText} {rest : List NativeText} :
    IsMet skip opens names (directory entries) (name :: rest) isDirectory ↔
      opens names = true ∧ ∃ child, (name, child) ∈ entries ∧
        (child.isDirectory && skip name) = false ∧
          IsMet skip opens (names ++ [name]) child rest isDirectory := by
  constructor
  · intro hmet
    obtain ⟨reached, hreached, hlink, hkind⟩ := hmet.found
    obtain ⟨hhere, hopened⟩ := isOpened_cons_iff.1 hmet.opened
    rw [at?, Option.bind_eq_some_iff] at hreached
    obtain ⟨child, hchild, hrest⟩ := hreached
    obtain ⟨front, back, rfl, -⟩ := List.lookup_eq_some_iff.1 hchild
    obtain ⟨hpassed, houtside, hkept⟩ :=
      (isKept_cons_iff hrest hkind).1 ⟨hmet.outside, hmet.kept⟩
    exact ⟨hhere, child, by simp, hpassed, ⟨reached, hrest, hlink, hkind⟩, hopened, houtside, hkept⟩
  · rintro ⟨hhere, child, hchild, hpassed, hmet⟩
    obtain ⟨reached, hreached, hlink, hkind⟩ := hmet.found
    have hdown : (directory entries).at? (name :: rest) = child.at? rest := by
      have happend := at?_append (directory entries) [name] rest
      rwa [at?_of_mem h hchild, Option.bind_some] at happend
    obtain ⟨houtside, hkept⟩ :=
      (isKept_cons_iff hreached hkind).2 ⟨hpassed, hmet.outside, hmet.kept⟩
    exact ⟨⟨reached, hdown.trans hreached, hlink, hkind⟩,
      isOpened_cons_iff.2 ⟨hhere, hmet.opened⟩, houtside, hkept⟩

/-- A walk of a directory meets the directory, and what it meets at the entries if it can look into
the directory. -/
theorem mem_visits_directory_iff {entries : List (NativeText × Entry)} {visit : Visit} :
    visit ∈ visits skip opens names (directory entries) ↔
      visit = ⟨names, true⟩ ∨ opens names = true ∧
        ∃ child ∈ entries, visit ∈ visitsAt skip opens names child := by
  rw [visits, List.mem_cons, List.mem_ite_nil_right]
  simp only [inNameOrder, visitsOf_eq_map, List.mem_flatMap, List.mem_mergeSort, List.mem_map]
  apply or_congr_right
  apply and_congr_right
  intro _
  constructor
  · rintro ⟨_, ⟨child, hchild, rfl⟩, hvisit⟩
    exact ⟨child, hchild, hvisit⟩
  · rintro ⟨child, hchild, hvisit⟩
    exact ⟨_, ⟨child, hchild, rfl⟩, hvisit⟩

theorem mem_visitsAt_iff {child : NativeText × Entry} {visit : Visit} :
    visit ∈ visitsAt skip opens names child ↔
      (child.2.isDirectory && skip child.1) = false ∧
        visit ∈ visits skip opens (names ++ [child.1]) child.2 := by
  rw [visitsAt, List.mem_ite_nil_left, Bool.not_eq_true]

/-- What a walk meets where it starts is its start. -/
theorem eq_start_of_isMet_nil {entry : Entry} {visit : Visit} (hnames : visit.names = names ++ [])
    (hmet : IsMet skip opens names entry [] visit.isDirectory) :
    visit = ⟨names, entry.isDirectory⟩ := by
  obtain ⟨-, hkind⟩ := isMet_nil_iff.1 hmet
  rw [List.append_nil] at hnames
  rw [← hnames, hkind]

/-- What a walk of a tree meets. -/
theorem mem_visits_iff {entry : Entry} (h : entry.WellFormed) : ∀ (names : List NativeText)
    (visit : Visit), visit ∈ visits skip opens names entry ↔
      ∃ below, visit.names = names ++ below ∧
        IsMet skip opens names entry below visit.isDirectory := by
  induction entry using treeInduction with
  | file content =>
    intro names visit
    rw [visits, List.mem_singleton]
    constructor
    · rintro rfl
      exact ⟨[], (List.append_nil names).symm, isMet_nil_iff.2 ⟨by simp, rfl⟩⟩
    · rintro ⟨below, hbelow, hmet⟩
      cases below with
      | nil => exact eq_start_of_isMet_nil hbelow hmet
      | cons name rest =>
        obtain ⟨reached, hreached, -⟩ := hmet.found
        exact absurd (isDirectory_of_at?_cons hreached) Bool.false_ne_true
  | link target =>
    intro names visit
    rw [visits]
    refine iff_of_false List.not_mem_nil ?_
    rintro ⟨below, hbelow, hmet⟩
    obtain ⟨reached, hreached, hlink, -⟩ := hmet.found
    cases below with
    | nil => exact hlink target (Option.some.inj hreached).symm
    | cons name rest => exact absurd (isDirectory_of_at?_cons hreached) Bool.false_ne_true
  | directory entries ih =>
    intro names visit
    rw [mem_visits_directory_iff]
    constructor
    · rintro (rfl | ⟨hopens, ⟨name, child⟩, hchild, hvisit⟩)
      · exact ⟨[], (List.append_nil names).symm, isMet_nil_iff.2 ⟨by simp, rfl⟩⟩
      · obtain ⟨hkept, hvisit⟩ := mem_visitsAt_iff.1 hvisit
        have hwell := h.of_at? (at?_of_mem h hchild)
        obtain ⟨below, hbelow, hmet⟩ := (ih _ hchild hwell _ visit).1 hvisit
        exact ⟨name :: below, by simpa using hbelow,
          (isMet_cons_iff h).2 ⟨hopens, child, hchild, hkept, hmet⟩⟩
    · rintro ⟨below, hbelow, hmet⟩
      cases below with
      | nil => exact .inl (eq_start_of_isMet_nil hbelow hmet)
      | cons name rest =>
        obtain ⟨hopens, child, hchild, hkept, hmet⟩ := (isMet_cons_iff h).1 hmet
        have hwell := h.of_at? (at?_of_mem h hchild)
        refine .inr ⟨hopens, (name, child), hchild, mem_visitsAt_iff.2 ⟨hkept, ?_⟩⟩
        exact (ih _ hchild hwell _ visit).2 ⟨rest, by simpa using hbelow, hmet⟩

/-- Behind a directory to which a walk has come it meets what a walk of this directory does. -/
theorem isMet_append_iff {entry reached : Entry} {front back : List NativeText}
    (hmet : IsMet skip opens names entry front true) (hreached : entry.at? front = some reached) :
    IsMet skip opens names entry (front ++ back) isDirectory ↔
      IsMet skip opens (names ++ front) reached back isDirectory := by
  have hfound : entry.at? (front ++ back) = reached.at? back := by
    rw [at?_append, hreached, Option.bind_some]
  constructor
  · intro hall
    refine ⟨by simpa only [hfound] using hall.found, fun later hlater hne => ?_,
      fun step hstep => ?_,
      fun hkind step hstep => hall.kept hkind step (List.mem_append_right front hstep)⟩
    · have hopened := hall.opened (front ++ later) ((List.prefix_append_right_inj front).2 hlater)
        (by simpa using hne)
      rwa [List.append_assoc]
    · apply hall.outside
      rw [List.dropLast_append_of_ne_nil (by rintro rfl; simp at hstep)]
      exact List.mem_append_right front hstep
  · intro hback
    refine ⟨by simpa only [hfound] using hback.found, fun later hlater hne => ?_,
      leadsOutside_append (hmet.kept rfl) hback.outside, fun hkind step hstep => ?_⟩
    · -- a shorter way ends before the directory, or behind it
      rcases List.prefix_or_prefix_of_prefix hlater (List.prefix_append front back) with
        hbefore | ⟨rest, rfl⟩
      · by_cases hsame : later = front
        · subst hsame
          have hhere := hback.opened [] List.nil_prefix (by rintro rfl; simp at hne)
          rwa [List.append_nil] at hhere
        · exact hmet.opened later hbefore hsame
      · have hrest := (List.prefix_append_right_inj front).1 hlater
        have hopened := hback.opened rest hrest (by rintro rfl; exact hne rfl)
        rwa [List.append_assoc] at hopened
    · exact (List.mem_append.1 hstep).elim (hmet.kept rfl step) (hback.kept hkind step)

end Entry

/-- A path lies below another one, or is the other one, if its steps start with those of the
other. -/
def Path.LiesBelow (path root : Path) : Prop :=
  root.components <+: path.components

instance (path root : Path) : Decidable (path.LiesBelow root) :=
  inferInstanceAs (Decidable (_ <+: _))

/-- Plain names below a path lead below one another as they start with one another. -/
theorem Path.liesBelow_joinAll_iff (root : Path) {front names : List String}
    (hfront : ∀ name ∈ front, IsPlainName name) (hnames : ∀ name ∈ names, IsPlainName name) :
    (root.joinAll names).LiesBelow (root.joinAll front) ↔ front <+: names := by
  rw [LiesBelow, components_joinAll root hfront, components_joinAll root hnames,
    List.prefix_append_right_inj]
  exact List.prefix_map_iff_of_injective fun _ _ heq => PathComponent.name.inj heq

namespace FileSystem

variable {system : FileSystem} {root : Path} {ignore : IgnoreSet}

/-! ## Walks of a file system -/

/-- What a walk that follows no links meets. -/
theorem mem_visits_iff_isMet (h : system.root.WellFormed) {entry : Entry}
    (hentry : system.find? root = some entry) (visit : Visit) :
    visit ∈ system.visits root ignore false ↔
      entry.IsMet ignore.skips (fun names => opens (root.joinNames? names)) [] visit.names
        visit.isDirectory := by
  rw [visits_eq_of_find?, hentry, Option.elim_some,
    Entry.mem_visits_iff (wellFormed_of_find? h hentry)]
  simp

theorem mem_fileNames_iff_isMet (h : system.root.WellFormed) {entry : Entry}
    (hentry : system.find? root = some entry) (names : List String) :
    names ∈ system.fileNames root ignore false ↔
      entry.IsMet ignore.skips (fun names => opens (root.joinNames? names)) [] (names.map .text)
        false := by
  rw [mem_fileNames_iff, mem_visits_iff_isMet h hentry]

/-- Names lead from a directory to what they lead to in the tree, unless the path is too long or a
link stands there. -/
theorem find?_joinAll_of_at? {entries : List (NativeText × Entry)} (h : system.Stands root entries)
    {names : List String} (hplain : ∀ name ∈ names, IsPlainName name) {entry : Entry}
    (hentry : (Entry.directory entries).at? (names.map .text) = some entry)
    (hlink : ∀ target, entry ≠ .link target) :
    system.find? (root.joinAll names) =
      if isWithinReach (root.joinAll names) then some entry else none := by
  obtain ⟨others, hroot⟩ := exists_root_of_stands h
  obtain ⟨front, hfront, rfl, hdirectory⟩ := h
  have hall : ∀ name ∈ front ++ names, IsPlainName name := fun name hname =>
    (List.mem_append.1 hname).elim (hfront name) (hplain name)
  have hat : system.root.at? ((front ++ names).map .text) = some entry := by
    rw [List.map_append, Entry.at?_append, hdirectory, Option.bind_some, hentry]
  unfold find? place?
  split
  · rw [Path.joinAll_absolute hfront hplain, follow?_absolute_of_at? hroot hall hat hlink]
    exact hat
  · rfl

section Below

variable {entries : List (NativeText × Entry)} (hformed : system.root.WellFormed)
  (hstands : system.Stands root entries) (hfound : system.find? root = some (.directory entries))
  {names : List String} (hvisit : ⟨names.map .text, true⟩ ∈ system.visits root ignore false)

include hformed hstands hfound hvisit

/-- A walk that starts at a directory of a walk meets the files that lie there. -/
theorem mem_fileNames_joinAll_iff (below : List String) :
    below ∈ system.fileNames (root.joinAll names) ignore false ↔
      names ++ below ∈ system.fileNames root ignore false := by
  have hmet := (mem_visits_iff_isMet hformed hfound _).1 hvisit
  obtain ⟨reached, hreached, hlink, hkind⟩ := hmet.found
  have hplain := NativeText.isPlainName_of_map_text
    ((wellFormed_of_find? hformed hfound).isPlain_of_hasPath (Entry.hasPath_of_at? hreached))
  have hthere := find?_joinAll_of_at? hstands hplain hreached hlink
  rw [mem_fileNames_iff_isMet hformed hfound, List.map_append,
    Entry.isMet_append_iff hmet hreached, List.nil_append]
  by_cases hreach : isWithinReach (root.joinAll names) = true
  · rw [if_pos hreach] at hthere
    rw [mem_fileNames_iff_isMet hformed hthere]
    -- the names before the directory are put in front of all paths in both walks
    simp only [← root.joinNames?_append]
    exact ⟨fun h => ⟨h.found, h.opened, h.outside, h.kept⟩,
      fun h => ⟨h.found, h.opened, h.outside, h.kept⟩⟩
  · -- a directory with too long a path is not looked into in either walk
    rw [if_neg hreach] at hthere
    refine iff_of_false ?_ fun hbelow => ?_
    · rw [mem_fileNames_iff, visits_eq_of_find?, hthere]
      exact List.not_mem_nil
    · have hne : [] ≠ below.map NativeText.text := by
        intro hnil
        rw [← hnil, Entry.isMet_nil_iff] at hbelow
        exact Bool.false_ne_true (hbelow.2.symm.trans hkind)
      have hopened := hbelow.opened [] List.nil_prefix hne
      rw [List.append_nil, opens_joinNames?] at hopened
      exact hreach (hopened names rfl)

/-- The files of a walk that starts at a directory of another walk are the files of the other walk
that lie below the directory, in the same order. -/
theorem files_walk_joinAll :
    (system.walk (root.joinAll names) ignore false).files =
      (system.walk root ignore false).files.filter fun file =>
        file.LiesBelow (root.joinAll names) := by
  obtain ⟨hascending, hplain⟩ := pairwise_fileNames hformed root ignore false
  obtain ⟨hascending', -⟩ := pairwise_fileNames hformed (root.joinAll names) ignore false
  have hnames := NativeText.isPlainName_of_map_text
    ((pairwise_visits hformed root ignore false).2 _ hvisit)
  -- both lists of names are ascending and hold the same
  have hsame : (system.fileNames (root.joinAll names) ignore false).map (names ++ ·) =
      (system.fileNames root ignore false).filter fun file => names <+: file := by
    apply List.Pairwise.eq_of_mem_iff (r := (· < ·))
      (List.pairwise_map.2 (hascending'.imp List.append_left_lt)) (hascending.filter _)
    intro file
    rw [List.mem_map, List.mem_filter, decide_eq_true_eq]
    constructor
    · rintro ⟨below, hbelow, rfl⟩
      exact ⟨(mem_fileNames_joinAll_iff hformed hstands hfound hvisit below).1 hbelow,
        List.prefix_append names below⟩
    · rintro ⟨hfile, below, rfl⟩
      exact ⟨below, (mem_fileNames_joinAll_iff hformed hstands hfound hvisit below).2 hfile, rfl⟩
  calc (system.walk (root.joinAll names) ignore false).files
    _ = ((system.fileNames (root.joinAll names) ignore false).map (names ++ ·)).map
        root.joinAll := by
      rw [walk, List.map_map]
      exact List.map_congr_left fun below _ => (Path.joinAll_append root names below).symm
    _ = ((system.fileNames root ignore false).filter fun file => names <+: file).map
        root.joinAll := by
      rw [hsame]
    _ = _ := by
      rw [walk, List.filter_map]
      congr 1
      refine List.filter_congr fun file hfile => ?_
      exact decide_eq_decide.2 (Path.liesBelow_joinAll_iff root hnames (hplain file hfile)).symm

end Below

end FileSystem

end CodeSurvey
