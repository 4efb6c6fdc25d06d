import CodeSurvey.FileSystem.Walk
import CodeSurvey.Proofs.NativeTexts

/-!
# The order of a walk

A walk of a tree meets everything at most once, and in the order of the names by which it is
reached: strictly ascending, step by step.

## Key results

- `Entry.treeInduction`: induction on trees of files, directories and links
- `Entry.pairwise_visits`: the visits of a walk are strictly ascending
- `Entry.WellFormed.expandWith`: following links leads to trees as file systems keep them
- `FileSystem.nodup_files` / `nodup_dirs`: a walk lists nothing twice
-/

namespace CodeSurvey

namespace Entry

/-- What holds of files and links, and of a directory as soon as it holds of all its entries, holds
of every tree. -/
@[elab_as_elim]
theorem treeInduction {motive : Entry → Prop} (file : ∀ content, motive (.file content))
    (link : ∀ target, motive (.link target))
    (directory : ∀ entries : List (NativeText × Entry), (∀ child ∈ entries, motive child.2) →
      motive (.directory entries)) (entry : Entry) : motive entry :=
  match entry with
  | .file content => file content
  | .link target => link target
  | .directory entries =>
    directory entries fun child _ => treeInduction file link directory child.2
termination_by sizeOf entry
decreasing_by
  rename_i hchild
  have hlt := List.sizeOf_lt_of_mem hchild
  obtain ⟨name, entry⟩ := child
  simp only [Prod.mk.sizeOf_spec, Entry.directory.sizeOf_spec] at hlt ⊢
  omega

/-- A tree as file systems keep it: the names in each directory are plain and differ. -/
inductive WellFormed : Entry → Prop
  | file (content : ByteArray) : WellFormed (.file content)
  | link (target : NativeText) : WellFormed (.link target)
  | directory {entries : List (NativeText × Entry)} (nodup : (entries.map Prod.fst).Nodup)
      (plain : ∀ child ∈ entries, child.1.IsPlain)
      (children : ∀ child ∈ entries, WellFormed child.2) : WellFormed (.directory entries)

mutual

/-- Whether a tree is one as file systems keep it. -/
def isWellFormed : Entry → Bool
  | file _ => true
  | link _ => true
  | directory entries => decide (entries.map Prod.fst).Nodup && areWellFormed entries

/-- Whether the entries of a directory have plain names and are trees as file systems keep them. -/
def areWellFormed : List (NativeText × Entry) → Bool
  | [] => true
  | (name, entry) :: rest =>
    decide name.IsPlain && (isWellFormed entry && areWellFormed rest)

end

theorem areWellFormed_iff (entries : List (NativeText × Entry)) :
    areWellFormed entries = true ↔
      ∀ child ∈ entries, child.1.IsPlain ∧ isWellFormed child.2 = true := by
  induction entries with
  | nil => simp [areWellFormed]
  | cons child rest ih => simp [areWellFormed, ih, and_assoc]

theorem isWellFormed_iff (entry : Entry) : isWellFormed entry = true ↔ entry.WellFormed := by
  induction entry using treeInduction with
  | file content => exact iff_of_true rfl (.file content)
  | link target => exact iff_of_true rfl (.link target)
  | directory entries ih =>
    rw [isWellFormed, Bool.and_eq_true, decide_eq_true_eq, areWellFormed_iff]
    constructor
    · rintro ⟨hnodup, hchildren⟩
      exact .directory hnodup (fun child hchild => (hchildren child hchild).1)
        fun child hchild => (ih child hchild).1 (hchildren child hchild).2
    · rintro ⟨⟩
      rename_i hnodup hplain hchildren
      exact ⟨hnodup, fun child hchild =>
        ⟨hplain child hchild, (ih child hchild).2 (hchildren child hchild)⟩⟩

instance (entry : Entry) : Decidable entry.WellFormed :=
  decidable_of_iff _ (isWellFormed_iff entry)

/-- Names that lead down a tree. -/
inductive HasPath : Entry → List NativeText → Prop
  | here (entry : Entry) : HasPath entry []
  | child {entries : List (NativeText × Entry)} {child : NativeText × Entry}
      {rest : List NativeText} (hchild : child ∈ entries) (h : HasPath child.2 rest) :
      HasPath (.directory entries) (child.1 :: rest)

theorem hasPath_file_iff {content : ByteArray} {names : List NativeText} :
    HasPath (.file content) names ↔ names = [] := by
  constructor
  · rintro ⟨⟩
    rfl
  · rintro rfl
    exact .here _

theorem hasPath_link_iff {target : NativeText} {names : List NativeText} :
    HasPath (.link target) names ↔ names = [] := by
  constructor
  · rintro ⟨⟩
    rfl
  · rintro rfl
    exact .here _

theorem hasPath_directory_iff {entries : List (NativeText × Entry)} {names : List NativeText} :
    HasPath (.directory entries) names ↔
      names = [] ∨ ∃ child ∈ entries, ∃ rest, child.2.HasPath rest ∧ names = child.1 :: rest := by
  constructor
  · rintro (_ | ⟨hchild, hrest⟩)
    · exact .inl rfl
    · exact .inr ⟨_, hchild, _, hrest, rfl⟩
  · rintro (rfl | ⟨child, hchild, rest, hrest, rfl⟩)
    · exact .here _
    · exact .child hchild hrest

/-- Names that lead down a tree as file systems keep it are plain. -/
theorem WellFormed.isPlain_of_hasPath {entry : Entry} {names : List NativeText}
    (h : entry.WellFormed) (hpath : entry.HasPath names) : ∀ name ∈ names, name.IsPlain := by
  induction hpath with
  | here => simp
  | child hchild _ ih =>
    cases h with
    | directory hnodup hplain hchildren =>
      rw [List.forall_mem_cons]
      exact ⟨hplain _ hchild, ih (hchildren _ hchild)⟩

/-- What is reached in a tree by names is such a tree too. -/
theorem WellFormed.of_at? {entry reached : Entry} {names : List NativeText} (h : entry.WellFormed)
    (hreached : entry.at? names = some reached) : reached.WellFormed := by
  induction names generalizing entry with
  | nil => exact Option.some.inj hreached ▸ h
  | cons name rest ih =>
    rw [at?, Option.bind_eq_some_iff] at hreached
    obtain ⟨child, hchild, hrest⟩ := hreached
    cases h with
    -- nothing lies below a file or a link
    | file content => cases hchild
    | link target => cases hchild
    | directory hnodup hplain hchildren =>
      obtain ⟨front, back, rfl, -⟩ := List.lookup_eq_some_iff.1 hchild
      exact ih (hchildren (name, child) (by simp)) hrest

variable (skip : NativeText → Bool) (opens : List NativeText → Bool)

/-- The visits at one entry of a directory that is reached by `names`. -/
def visitsAt (names : List NativeText) (child : NativeText × Entry) : List Visit :=
  if child.2.isDirectory && skip child.1 then []
  else visits skip opens (names ++ [child.1]) child.2

theorem visitsOf_eq_map (names : List NativeText) (entries : List (NativeText × Entry)) :
    visitsOf skip opens names entries =
      entries.map fun child => (child.1, visitsAt skip opens names child) := by
  induction entries with
  | nil => rfl
  | cons child rest ih => rw [visitsOf, ih, List.map_cons, visitsAt]

/-- A directory whose entries are kept in the order of their names is walked in that order. -/
theorem visits_directory_of_pairwise {names : List NativeText} {entries : List (NativeText × Entry)}
    (h : entries.Pairwise fun a b => a.1 ≤ b.1) :
    visits skip opens names (directory entries) =
      ⟨names, true⟩ ::
        if opens names then entries.flatMap (visitsAt skip opens names) else [] := by
  have hgroups : (entries.map fun child => (child.1, visitsAt skip opens names child)).Pairwise
      fun a b => decide (a.1 ≤ b.1) = true :=
    List.pairwise_map.2 (h.imp fun hle => decide_eq_true hle)
  rw [visits, inNameOrder, visitsOf_eq_map, List.mergeSort_of_pairwise hgroups, List.flatMap_map]

theorem visits_directory_singleton (names : List NativeText) (name : NativeText) (entry : Entry) :
    visits skip opens names (directory [(name, entry)]) =
      ⟨names, true⟩ :: if opens names then
        (if entry.isDirectory && skip name then []
          else visits skip opens (names ++ [name]) entry) else [] := by
  rw [visits_directory_of_pairwise skip opens (List.pairwise_singleton _ _), List.flatMap_singleton,
    visitsAt]

/-- An entry that is not passed over is walked. -/
theorem visitsAt_sublist (names : List NativeText) (child : NativeText × Entry) :
    (visitsAt skip opens names child).Sublist
      (visits skip opens (names ++ [child.1]) child.2) := by
  rw [visitsAt]
  split
  · exact List.nil_sublist _
  · exact List.Sublist.refl _

/-- What a walk meets in a directory it meets at one of the entries. -/
theorem mem_visitsOf {names : List NativeText} {entries : List (NativeText × Entry)} {visit : Visit}
    (h : visit ∈ if opens names then inNameOrder (visitsOf skip opens names entries) else []) :
    ∃ child ∈ entries, visit ∈ visitsAt skip opens names child := by
  split at h
  · rw [inNameOrder, List.mem_flatMap] at h
    obtain ⟨group, hgroup, hvisit⟩ := h
    rw [List.mem_mergeSort, visitsOf_eq_map, List.mem_map] at hgroup
    obtain ⟨child, hchild, rfl⟩ := hgroup
    exact ⟨child, hchild, hvisit⟩
  · exact absurd h List.not_mem_nil

/-- What a walk meets lies below where it is. -/
theorem hasPath_of_mem_visits (entry : Entry) :
    ∀ names, ∀ visit ∈ visits skip opens names entry,
      ∃ below, visit.names = names ++ below ∧ entry.HasPath below := by
  induction entry using treeInduction with
  | file content =>
    intro names visit hvisit
    obtain rfl := List.mem_singleton.1 hvisit
    exact ⟨[], (List.append_nil names).symm, .here _⟩
  | link target => simp [visits]
  | directory entries ih =>
    intro names visit hvisit
    rw [visits, List.mem_cons] at hvisit
    rcases hvisit with rfl | hvisit
    · exact ⟨[], (List.append_nil names).symm, .here _⟩
    · obtain ⟨child, hchild, hvisit⟩ := mem_visitsOf skip opens hvisit
      obtain ⟨below, hbelow, hpath⟩ := ih child hchild (names ++ [child.1]) visit
        ((visitsAt_sublist skip opens names child).subset hvisit)
      exact ⟨child.1 :: below, by simpa using hbelow, .child hchild hpath⟩

/-- What a walk meets is reached by plain names. -/
theorem names_of_mem_visits {entry : Entry} (h : entry.WellFormed) :
    ∀ names, ∀ visit ∈ visits skip opens names entry,
      ∃ below, visit.names = names ++ below ∧ ∀ name ∈ below, name.IsPlain := by
  intro names visit hvisit
  obtain ⟨below, hbelow, hpath⟩ := hasPath_of_mem_visits skip opens entry names visit hvisit
  exact ⟨below, hbelow, h.isPlain_of_hasPath hpath⟩

/-- Sorting groups with different names brings them in strictly ascending order. -/
theorem pairwise_mergeSort_of_nodup {β : Type} {groups : List (NativeText × β)}
    (h : (groups.map Prod.fst).Nodup) :
    (groups.mergeSort fun a b => decide (a.1 ≤ b.1)).Pairwise fun a b => a.1 < b.1 := by
  have hsorted : (groups.mergeSort fun a b => decide (a.1 ≤ b.1)).Pairwise
      fun a b => decide (a.1 ≤ b.1) = true :=
    List.pairwise_mergeSort
      (fun a b c hab hbc => by
        simpa using Std.le_trans (of_decide_eq_true hab) (of_decide_eq_true hbc))
      (fun a b => by simpa using Std.le_total) groups
  have hnodup : (groups.mergeSort fun a b => decide (a.1 ≤ b.1)).Pairwise
      fun a b => a.1 ≠ b.1 := by
    rw [← List.pairwise_map]
    exact ((List.mergeSort_perm groups _).map Prod.fst).nodup_iff.2 h
  exact (hsorted.and hnodup).imp fun hab => Std.lt_of_le_of_ne (of_decide_eq_true hab.1) hab.2

/-- What a walk meets at an entry comes before what it meets at one with a greater name. -/
theorem names_lt_of_mem_visitsAt {names : List NativeText} {child other : NativeText × Entry}
    (hchild : child.2.WellFormed) (hother : other.2.WellFormed) (hlt : child.1 < other.1)
    {a b : Visit} (ha : a ∈ visitsAt skip opens names child)
    (hb : b ∈ visitsAt skip opens names other) : a.names < b.names := by
  obtain ⟨below, hbelow, -⟩ := names_of_mem_visits skip opens hchild _ a
    ((visitsAt_sublist skip opens names child).subset ha)
  obtain ⟨beyond, hbeyond, -⟩ := names_of_mem_visits skip opens hother _ b
    ((visitsAt_sublist skip opens names other).subset hb)
  rw [hbelow, hbeyond, List.append_assoc, List.append_assoc]
  exact List.append_left_lt (List.cons_lt_cons_iff.2 (Or.inl hlt))

/-- What a walk meets comes in strictly ascending order of the names that lead to it. -/
theorem pairwise_visits {entry : Entry} (h : entry.WellFormed) :
    ∀ names, (visits skip opens names entry).Pairwise fun a b => a.names < b.names := by
  induction entry using treeInduction with
  | file content => exact fun names => List.pairwise_singleton _ _
  | link target => exact fun names => List.Pairwise.nil
  | directory entries ih =>
    intro names
    cases h with
    | directory hnodup hplain hchildren =>
      rw [visits, List.pairwise_cons]
      constructor
      · -- the directory itself comes before what it holds
        intro visit hvisit
        obtain ⟨child, hchild, hvisit⟩ := mem_visitsOf skip opens hvisit
        obtain ⟨below, hbelow, -⟩ := names_of_mem_visits skip opens (hchildren child hchild) _ visit
          ((visitsAt_sublist skip opens names child).subset hvisit)
        have hlt : names ++ [] < names ++ (child.1 :: below) :=
          List.append_left_lt (List.nil_lt_cons child.1 below)
        rw [hbelow, List.append_assoc]
        rwa [List.append_nil] at hlt
      · split
        · -- then entry by entry, each with all that lies below it
          rw [inNameOrder, List.pairwise_flatMap, visitsOf_eq_map]
          have hnames : ((entries.map fun child =>
              (child.1, visitsAt skip opens names child)).map Prod.fst).Nodup := by
            rw [List.map_map]
            exact hnodup
          constructor
          · intro group hgroup
            rw [List.mem_mergeSort, List.mem_map] at hgroup
            obtain ⟨child, hchild, rfl⟩ := hgroup
            exact (ih child hchild (hchildren child hchild) _).sublist
              (visitsAt_sublist skip opens names child)
          · refine (pairwise_mergeSort_of_nodup hnames).imp_of_mem
              fun {group later} hgroup hlater hlt a ha b hb => ?_
            rw [List.mem_mergeSort, List.mem_map] at hgroup hlater
            obtain ⟨child, hchild, rfl⟩ := hgroup
            obtain ⟨other, hother, rfl⟩ := hlater
            exact names_lt_of_mem_visitsAt skip opens (hchildren child hchild)
              (hchildren other hother) hlt ha hb
        · exact List.Pairwise.nil

/-! ## Following links -/

section Expansion

variable (skip : NativeText → Bool) (follow : Trail → Option Entry)

/-- What an entry of the directory at the end of a trail is replaced by. -/
def expandedAt (trail : Trail) (child : NativeText × Entry) :
    Option (NativeText × Entry) :=
  if child.2.isDirectory && skip child.1 then none
  else (expandWith skip follow (trail.step child.1) child.2).map fun entry => (child.1, entry)

theorem expandAll_eq_filterMap (trail : Trail) (entries : List (NativeText × Entry)) :
    expandAll skip follow trail entries = entries.filterMap (expandedAt skip follow trail) := by
  induction entries with
  | nil => rfl
  | cons child rest ih =>
    rw [expandAll, ih, List.filterMap_cons, expandedAt]
    by_cases hskip : (child.2.isDirectory && skip child.1) = true
    · rw [if_pos hskip, if_pos hskip]
    · rw [if_neg hskip, if_neg hskip]
      cases expandWith skip follow (trail.step child.1) child.2 <;> rfl

/-- An entry that is not left out keeps its name. -/
theorem expandedAt_eq_some {trail : Trail} {child found : NativeText × Entry}
    (h : expandedAt skip follow trail child = some found) :
    found.1 = child.1 ∧ expandWith skip follow (trail.step child.1) child.2 = some found.2 := by
  rw [expandedAt] at h
  split at h
  · exact nomatch h
  · obtain ⟨entry, hentry, rfl⟩ := Option.map_eq_some_iff.1 h
    exact ⟨rfl, hentry⟩

variable {skip follow}

/-- With links followed a tree is one as file systems keep it, if what the links stand for is. -/
theorem WellFormed.expandWith
    (hfollow : ∀ trail expanded, follow trail = some expanded → expanded.WellFormed)
    {entry : Entry} (h : entry.WellFormed) :
    ∀ trail expanded, entry.expandWith skip follow trail = some expanded →
      expanded.WellFormed := by
  induction entry using treeInduction with
  | file content =>
    rintro trail _ ⟨⟩
    exact h
  | link target => exact hfollow
  | directory entries ih =>
    rintro trail _ ⟨⟩
    rw [expandAll_eq_filterMap]
    cases h with
    | directory hnodup hplain hchildren =>
      rw [List.Nodup, List.pairwise_map] at hnodup
      refine .directory ?_ (fun found hfound => ?_) fun found hfound => ?_
      · rw [List.Nodup, List.pairwise_map, List.pairwise_filterMap]
        refine hnodup.imp fun {child other} hne a ha b hb => ?_
        rw [(expandedAt_eq_some skip follow ha).1, (expandedAt_eq_some skip follow hb).1]
        exact hne
      · obtain ⟨child, hchild, hsome⟩ := List.mem_filterMap.1 hfound
        rw [(expandedAt_eq_some skip follow hsome).1]
        exact hplain child hchild
      · obtain ⟨child, hchild, hsome⟩ := List.mem_filterMap.1 hfound
        exact ih child hchild (hchildren child hchild) _ _ (expandedAt_eq_some skip follow hsome).2

end Expansion

end Entry

theorem Path.joinNames?_eq_some_iff {root path : Path} {names : List NativeText} :
    root.joinNames? names = some path ↔
      ∃ texts : List String, names = texts.map .text ∧ root.joinAll texts = path := by
  simp only [joinNames?, Option.map_eq_some_iff, NativeText.texts?_eq_some_iff]

/-- Behind texts, names lead on from the path to which the texts lead. -/
theorem Path.joinNames?_append (path : Path) (front : List String) (back : List NativeText) :
    path.joinNames? (front.map .text ++ back) = (path.joinAll front).joinNames? back := by
  rw [joinNames?, joinNames?, NativeText.texts?_map_text_append, Option.map_map]
  congr 1
  exact funext fun names => joinAll_append path front names

namespace FileSystem

variable {system : FileSystem} (h : system.root.WellFormed) (root : Path) (ignore : IgnoreSet)
  (follow : Bool)

include h

omit root ignore follow in
/-- What a link stands for is a tree as file systems keep it. -/
theorem wellFormed_of_followLink (skip : NativeText → Bool) (depth : Nat) :
    ∀ trail expanded, system.followLink skip depth trail = some expanded →
      expanded.WellFormed := by
  induction depth with
  | zero => exact fun _ _ hnone => nomatch hnone
  | succ depth ih =>
    intro trail expanded hexpanded
    rw [followLink] at hexpanded
    split at hexpanded
    · exact nomatch hexpanded
    · split at hexpanded
      · exact nomatch hexpanded
      · rename_i place _
        split at hexpanded
        · obtain rfl := Option.some.inj hexpanded
          exact .file _
        · rename_i entries hentry
          split at hexpanded
          · exact nomatch hexpanded
          · exact (h.of_at? hentry).expandWith ih _ _ hexpanded
        · exact nomatch hexpanded

/-- A walk meets nothing, or what it meets in some tree as file systems keep it. -/
theorem visits_eq_nil_or_exists :
    system.visits root ignore follow = [] ∨ ∃ entry : Entry, entry.WellFormed ∧
      system.visits root ignore follow = entry.visits ignore.skips
        (fun names => opens (root.joinNames? names)) [] := by
  rw [visits]
  split
  · exact .inl rfl
  · rename_i place _
    split
    · exact .inl rfl
    · -- the walk starts at an entry of the tree
      rename_i entry hentry
      have hformed := h.of_at? hentry
      cases follow with
      | false => exact .inr ⟨entry, hformed, rfl⟩
      | true =>
        dsimp only
        rw [if_pos rfl]
        split
        · exact .inl rfl
        · rename_i expanded hexpanded
          exact .inr ⟨expanded, hformed.expandWith (wellFormed_of_followLink h _ _) _ _ hexpanded,
            rfl⟩

/-- A walk meets things in strictly ascending order, by plain names. -/
theorem pairwise_visits :
    (system.visits root ignore follow).Pairwise (fun a b => a.names < b.names) ∧
      ∀ visit ∈ system.visits root ignore follow, ∀ name ∈ visit.names, name.IsPlain := by
  rcases visits_eq_nil_or_exists h root ignore follow with hnone | ⟨entry, hformed, hvisits⟩
  · rw [hnone]
    exact ⟨List.Pairwise.nil, by simp⟩
  · rw [hvisits]
    refine ⟨Entry.pairwise_visits _ _ hformed [], fun visit hvisit => ?_⟩
    obtain ⟨below, hbelow, hplain⟩ := Entry.names_of_mem_visits _ _ hformed [] visit hvisit
    rw [hbelow]
    exact hplain

omit h ignore follow in
/-- A directory is passed over for the length of its path only if the path is UTF-8. -/
theorem opens_joinNames? {names : List NativeText} :
    opens (root.joinNames? names) = true ↔
      ∀ texts : List String, names = texts.map .text →
        isWithinReach (root.joinAll texts) = true := by
  simp only [opens, Path.joinNames?, Option.all_map, Option.all_eq_true,
    NativeText.texts?_eq_some_iff]

omit h in
variable {root ignore follow} in
/-- What is collected are the visits by names that are texts. -/
theorem mem_collect_iff {keep : Visit → Bool} {names : List String} :
    names ∈ system.collect root ignore follow keep ↔
      ∃ visit ∈ system.visits root ignore follow, keep visit = true ∧
        visit.names = names.map .text := by
  simp only [collect, List.mem_filterMap, List.mem_filter, NativeText.texts?_eq_some_iff, and_assoc]

omit h in
variable {root ignore follow} in
theorem mem_fileNames_iff {names : List String} :
    names ∈ system.fileNames root ignore follow ↔
      ⟨names.map .text, false⟩ ∈ system.visits root ignore follow := by
  rw [fileNames, mem_collect_iff]
  constructor
  · rintro ⟨⟨_, kind⟩, hvisit, hkind, rfl⟩
    obtain rfl : kind = false := by simpa using hkind
    exact hvisit
  · exact fun hvisit => ⟨_, hvisit, rfl, rfl⟩

omit h in
variable {root ignore follow} in
theorem mem_dirNames_iff {names : List String} :
    names ∈ system.dirNames root ignore follow ↔
      names ≠ [] ∧ ⟨names.map .text, true⟩ ∈ system.visits root ignore follow := by
  rw [dirNames, mem_collect_iff]
  constructor
  · rintro ⟨⟨_, kind⟩, hvisit, hkept, rfl⟩
    obtain ⟨rfl, hne⟩ : kind = true ∧ names ≠ [] := by simpa using hkept
    exact ⟨hne, hvisit⟩
  · rintro ⟨hne, hvisit⟩
    exact ⟨_, hvisit, by simpa using hne, rfl⟩

/-- What a walk collects comes in strictly ascending order, by plain names. -/
theorem pairwise_collect (keep : Visit → Bool) :
    (system.collect root ignore follow keep).Pairwise (· < ·) ∧
      ∀ names ∈ system.collect root ignore follow keep, ∀ name ∈ names, IsPlainName name := by
  obtain ⟨hascending, hplain⟩ := pairwise_visits h root ignore follow
  constructor
  · rw [collect, List.pairwise_filterMap]
    refine (hascending.filter _).imp fun {a b} hlt names hnames others hothers => ?_
    rw [NativeText.texts?_eq_some_iff.1 hnames, NativeText.texts?_eq_some_iff.1 hothers] at hlt
    exact NativeText.lt_of_map_text_lt hlt
  · intro names hnames
    obtain ⟨visit, hvisit, -, hsame⟩ := mem_collect_iff.1 hnames
    exact NativeText.isPlainName_of_map_text (hsame ▸ hplain visit hvisit)

/-- The files of a walk come in strictly ascending order, by plain names. -/
theorem pairwise_fileNames :
    (system.fileNames root ignore follow).Pairwise (· < ·) ∧
      ∀ names ∈ system.fileNames root ignore follow, ∀ name ∈ names, IsPlainName name :=
  pairwise_collect h root ignore follow _

/-- So do the directories. -/
theorem pairwise_dirNames :
    (system.dirNames root ignore follow).Pairwise (· < ·) ∧
      ∀ names ∈ system.dirNames root ignore follow, ∀ name ∈ names, IsPlainName name :=
  pairwise_collect h root ignore follow _

variable {root ignore follow} in
/-- A file of a walk is reached by plain names. -/
theorem exists_plain_of_mem_files {path : Path}
    (hpath : path ∈ (system.walk root ignore follow).files) :
    ∃ names : List String, (∀ name ∈ names, IsPlainName name) ∧ path = root.joinAll names := by
  obtain ⟨names, hnames, rfl⟩ := List.mem_map.1 hpath
  exact ⟨names, (pairwise_fileNames h root ignore follow).2 names hnames, rfl⟩

/-- Different names lead to different paths. -/
theorem nodup_map_joinAll_collect (keep : Visit → Bool) :
    ((system.collect root ignore follow keep).map root.joinAll).Nodup := by
  obtain ⟨hascending, hplain⟩ := pairwise_collect h root ignore follow keep
  -- one path for two lists of names would mean that they are the same
  refine List.pairwise_map.2 (hascending.imp_of_mem fun {a b} ha hb hlt heq => ?_)
  have hnames := Path.joinAll_inj root (hplain a ha) (hplain b hb) heq
  exact List.lt_irrefl b (hnames ▸ hlt)

/-- A walk lists no file twice. -/
theorem nodup_files : (system.walk root ignore follow).files.Nodup :=
  nodup_map_joinAll_collect h root ignore follow _

/-- A walk lists no directory twice. -/
theorem nodup_dirs : (system.walk root ignore follow).dirs.Nodup :=
  nodup_map_joinAll_collect h root ignore follow _

end FileSystem

end CodeSurvey
