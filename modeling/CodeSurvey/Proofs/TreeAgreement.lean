import CodeSurvey.Proofs.ListLemmas
import CodeSurvey.Proofs.TreeLookup

/-!
# Trees that agree outside ignored directories

Two trees agree outside ignored directories if the same stands at all names that do not lead below
one. Nothing else is seen by a walk, or by looking up a path that leads somewhere outside.

## Key results

- `Entry.leadsOutside_of_mem_visits`: a walk does not come below an ignored directory
- `Entry.visits_eq_of_agreeOutside`: a walk meets the same in trees that agree outside
- `FileSystem.reveals_of_mem_visits`: a walk of a file system does not come below one either
- `FileSystem.AgreeBelow.map_surface_find?` / `visits_eq`: what paths lead to, and walks meet, in
  file systems that agree outside
-/

namespace CodeSurvey

namespace Entry

/-! ## What can be seen of a tree -/

/-- What can be seen of an entry without looking into it. -/
def surface : Entry → Entry
  | directory _ => directory []
  | entry => entry

@[simp] theorem isDirectory_surface (entry : Entry) :
    entry.surface.isDirectory = entry.isDirectory := by
  cases entry <;> rfl

@[simp] theorem content?_surface (entry : Entry) : entry.surface.content? = entry.content? := by
  cases entry <;> rfl

@[simp] theorem size_surface (entry : Entry) : entry.surface.size = entry.size := by
  cases entry <;> rfl

/-- All of a file or a link can be seen. -/
theorem eq_of_surface_eq {entry other : Entry} (h : entry.surface = other.surface)
    (hkind : entry.isDirectory = false) : entry = other := by
  cases entry with
  | directory entries => exact nomatch hkind
  | file content => cases other <;> simp_all [surface]
  | link target => cases other <;> simp_all [surface]

theorem exists_directory_of_surface {entries : List (NativeText × Entry)} {other : Entry}
    (h : (directory entries).surface = other.surface) : ∃ others, other = directory others := by
  cases other with
  | directory others => exact ⟨others, rfl⟩
  | file content => exact nomatch h
  | link target => exact nomatch h

variable (skip : NativeText → Bool)

/-- Names that do not lead below an ignored directory. -/
def LeadsOutside (names : List NativeText) : Prop :=
  ∀ name ∈ names.dropLast, skip name = false

/-- The same can be seen in two trees outside ignored directories. -/
def AgreeOutside (entry other : Entry) : Prop :=
  ∀ names, LeadsOutside skip names →
    (entry.at? names).map surface = (other.at? names).map surface

variable {skip}

theorem leadsOutside_of_forall {names : List NativeText}
    (h : ∀ name ∈ names, skip name = false) :
    LeadsOutside skip names :=
  fun name hname => h name (List.dropLast_subset names hname)

theorem leadsOutside_append {front back : List NativeText}
    (hfront : ∀ name ∈ front, skip name = false) (hback : LeadsOutside skip back) :
    LeadsOutside skip (front ++ back) := by
  cases back with
  | nil =>
    rw [List.append_nil]
    exact leadsOutside_of_forall hfront
  | cons name rest =>
    intro step hstep
    rw [List.dropLast_append_of_ne_nil (List.cons_ne_nil name rest), List.mem_append] at hstep
    exact hstep.elim (hfront step) (hback step)

theorem AgreeOutside.refl (entry : Entry) : AgreeOutside skip entry entry :=
  fun _ _ => rfl

theorem AgreeOutside.symm {entry other : Entry} (h : AgreeOutside skip entry other) :
    AgreeOutside skip other entry :=
  fun names hnames => (h names hnames).symm

theorem AgreeOutside.surface_eq {entry other : Entry} (h : AgreeOutside skip entry other) :
    entry.surface = other.surface :=
  Option.some.inj (h [] (by simp [LeadsOutside]))

theorem AgreeOutside.isDirectory_eq {entry other : Entry} (h : AgreeOutside skip entry other) :
    other.isDirectory = entry.isDirectory := by
  rw [← isDirectory_surface, ← h.surface_eq, isDirectory_surface]

/-- What stands outside ignored directories in trees that agree outside, agrees outside. -/
theorem AgreeOutside.exists_at? {entry other reached : Entry} (h : AgreeOutside skip entry other)
    {names : List NativeText} (hnames : ∀ name ∈ names, skip name = false)
    (hreached : entry.at? names = some reached) :
    ∃ found, other.at? names = some found ∧ AgreeOutside skip reached found := by
  have hhere := h names (leadsOutside_of_forall hnames)
  rw [hreached, Option.map_some, eq_comm, Option.map_eq_some_iff] at hhere
  obtain ⟨found, hfound, -⟩ := hhere
  refine ⟨found, hfound, fun below hbelow => ?_⟩
  have hdown := h (names ++ below) (leadsOutside_append hnames hbelow)
  rwa [at?_append, at?_append, hreached, hfound, Option.bind_some, Option.bind_some] at hdown

/-- Directories agree outside if they hold entries of the same names that look the same and, but for
ignored ones, agree outside. -/
theorem agreeOutside_directory {entries others : List (NativeText × Entry)}
    (h : List.Forall₂ (fun a b => a.1 = b.1 ∧ a.2.surface = b.2.surface ∧
      (skip a.1 = false → AgreeOutside skip a.2 b.2)) entries others) :
    AgreeOutside skip (directory entries) (directory others) := by
  intro names hnames
  cases names with
  | nil => rfl
  | cons name rest =>
    rw [at?, at?, child?, child?]
    induction h with
    | nil => rfl
    | @cons a b _ _ hpair _ ih =>
      obtain ⟨first, entry⟩ := a
      obtain ⟨second, other⟩ := b
      obtain ⟨hname, hsurface, hbelow⟩ := hpair
      obtain rfl : first = second := hname
      rw [List.lookup_cons, List.lookup_cons]
      split
      · rename_i hfirst
        obtain rfl : name = first := by simpa using hfirst
        cases rest with
        | nil => simpa [at?] using hsurface
        | cons next rest =>
          -- what follows lies below this entry, so it is not ignored
          have hkept : skip name = false := hnames name (by simp)
          refine hbelow hkept (next :: rest) fun step hstep => hnames step ?_
          exact List.mem_cons_of_mem name hstep
      · exact ih

/-! ## Walks -/

variable (opens : List NativeText → Bool)

variable (skip) in

/-- A walk does not come below an ignored directory, nor into one. -/
theorem leadsOutside_of_mem_visits (entry : Entry) :
    ∀ names, ∀ visit ∈ visits skip opens names entry, ∃ below, visit.names = names ++ below ∧
      LeadsOutside skip below ∧
      (visit.isDirectory = true → ∀ name ∈ below, skip name = false) := by
  induction entry using treeInduction with
  | file content =>
    intro names visit hvisit
    obtain rfl := List.mem_singleton.1 hvisit
    exact ⟨[], (List.append_nil names).symm, by simp [LeadsOutside], by simp⟩
  | link target => simp [visits]
  | directory entries ih =>
    intro names visit hvisit
    rw [visits, List.mem_cons] at hvisit
    rcases hvisit with rfl | hvisit
    · exact ⟨[], (List.append_nil names).symm, by simp [LeadsOutside], by simp⟩
    · obtain ⟨⟨name, child⟩, hchild, hvisit⟩ := mem_visitsOf skip opens hvisit
      rw [visitsAt] at hvisit
      split at hvisit
      · -- an ignored directory is passed over
        exact absurd hvisit List.not_mem_nil
      · rename_i hkept
        have ih := ih (name, child) hchild (names ++ [name]) visit hvisit
        cases child with
        | directory below =>
          have hname : ∀ step ∈ [name], skip step = false := by simpa [isDirectory] using hkept
          obtain ⟨below, hbelow, houtside, hdirectory⟩ := ih
          refine ⟨name :: below, by simpa using hbelow, leadsOutside_append hname houtside, ?_⟩
          exact fun hkind => List.forall_mem_cons.2 ⟨hname name (by simp), hdirectory hkind⟩
        | file content =>
          obtain rfl := List.mem_singleton.1 hvisit
          exact ⟨[name], rfl, by simp [LeadsOutside], by simp⟩
        | link target => exact absurd hvisit List.not_mem_nil

/-- Groups with different names come in one order only. -/
theorem inNameOrder_eq_of_perm {groups others : List (NativeText × List Visit)}
    (hnodup : (groups.map Prod.fst).Nodup) (h : groups.Perm others) :
    inNameOrder groups = inNameOrder others := by
  have hsorted : (groups.mergeSort fun a b => decide (a.1 ≤ b.1)) =
      others.mergeSort fun a b => decide (a.1 ≤ b.1) := by
    have hperm := (List.mergeSort_perm groups fun a b => decide (a.1 ≤ b.1)).trans
      (h.trans (List.mergeSort_perm others fun a b => decide (a.1 ≤ b.1)).symm)
    refine hperm.eq_of_pairwise (fun a b _ _ hab hba => ?_) (pairwise_mergeSort_of_nodup hnodup)
      (pairwise_mergeSort_of_nodup ((h.map Prod.fst).nodup_iff.1 hnodup))
    exact absurd (Std.lt_trans hab hba) Std.lt_irrefl
  rw [inNameOrder, inNameOrder, hsorted]

/-- In a directory with different names, each name leads to its entry. -/
theorem at?_of_mem {entries : List (NativeText × Entry)} (h : (directory entries).WellFormed)
    {child : NativeText × Entry} (hchild : child ∈ entries) :
    (directory entries).at? [child.1] = some child.2 := by
  cases h with
  | directory hnodup hplain hchildren =>
    have hlookup : entries.lookup child.1 = some child.2 :=
      List.lookup_eq_some_of_forall hchild fun other hother hname =>
        congrArg Prod.snd (List.inj_on_of_nodup_map hnodup hother hchild hname)
    rw [at?, child?, hlookup]
    rfl

theorem mem_of_at?_singleton {entries : List (NativeText × Entry)} {name : NativeText}
    {entry : Entry} (h : (directory entries).at? [name] = some entry) :
    (name, entry) ∈ entries := by
  rw [at?, Option.bind_eq_some_iff] at h
  obtain ⟨child, hchild, hentry⟩ := h
  obtain rfl := Option.some.inj hentry
  obtain ⟨front, back, rfl, -⟩ := List.lookup_eq_some_iff.1 hchild
  simp

/-- Each name in a directory stands in one that agrees outside. -/
theorem exists_mem_of_agreeOutside {entries others : List (NativeText × Entry)}
    (hothers : (directory others).WellFormed)
    (h : AgreeOutside skip (directory entries) (directory others)) {name : NativeText}
    {other : Entry} (hmem : (name, other) ∈ others) : ∃ child, (name, child) ∈ entries := by
  have hhere := h [name] (by simp [LeadsOutside])
  rw [at?_of_mem hothers hmem, Option.map_some, Option.map_eq_some_iff] at hhere
  obtain ⟨child, hchild, -⟩ := hhere
  exact ⟨child, mem_of_at?_singleton hchild⟩

variable (skip) in
/-- The groups of visits in a directory with different names have different names. -/
theorem nodup_visitsOf (names : List NativeText) {entries : List (NativeText × Entry)}
    (h : (directory entries).WellFormed) :
    ((visitsOf skip opens names entries).map Prod.fst).Nodup := by
  cases h with
  | directory hnodup hplain hchildren =>
    rw [visitsOf_eq_map, List.map_map]
    exact hnodup

/-- At an entry of a directory a walk meets the same as at the entry of that name in one that
agrees outside, if it does so in all that agrees outside with the entry. -/
theorem exists_visitsAt_eq {entries others : List (NativeText × Entry)}
    (hformed : (directory entries).WellFormed) (hothers : (directory others).WellFormed)
    (h : AgreeOutside skip (directory entries) (directory others)) {names : List NativeText}
    {child : NativeText × Entry} (hchild : child ∈ entries)
    (ih : ∀ other, AgreeOutside skip child.2 other → other.WellFormed →
      visits skip opens (names ++ [child.1]) child.2 =
        visits skip opens (names ++ [child.1]) other) :
    ∃ other, (child.1, other) ∈ others ∧
      visitsAt skip opens names child = visitsAt skip opens names (child.1, other) := by
  have hhere := h [child.1] (by simp [LeadsOutside])
  rw [at?_of_mem hformed hchild, Option.map_some, eq_comm, Option.map_eq_some_iff] at hhere
  obtain ⟨other, hother, hsurface⟩ := hhere
  have hkind : other.isDirectory = child.2.isDirectory := by
    rw [← isDirectory_surface, hsurface, isDirectory_surface]
  refine ⟨other, mem_of_at?_singleton hother, ?_⟩
  rw [visitsAt, visitsAt, hkind]
  split
  · rfl
  · rename_i hkept
    cases hdirectory : child.2.isDirectory with
    | false =>
      -- a file or a link is the same in both
      rw [eq_of_surface_eq hsurface.symm hdirectory]
    | true =>
      have hname : ∀ name ∈ [child.1], skip name = false := by simpa [hdirectory] using hkept
      obtain ⟨found, hfound, hagree⟩ := h.exists_at? hname (at?_of_mem hformed hchild)
      obtain rfl := Option.some.inj (hother.symm.trans hfound)
      exact ih other hagree (hothers.of_at? hother)

/-- The groups of visits in directories that agree outside are the same, in whatever order the
entries are kept. -/
theorem visitsOf_perm {entries others : List (NativeText × Entry)}
    (hformed : (directory entries).WellFormed) (hothers : (directory others).WellFormed)
    (h : AgreeOutside skip (directory entries) (directory others)) (names : List NativeText)
    (hvisits : ∀ child ∈ entries, ∃ other, (child.1, other) ∈ others ∧
      visitsAt skip opens names child = visitsAt skip opens names (child.1, other)) :
    (visitsOf skip opens names entries).Perm (visitsOf skip opens names others) := by
  have hnodup := List.Nodup.of_map _ (nodup_visitsOf skip opens names hformed)
  have hnodup' := List.Nodup.of_map _ (nodup_visitsOf skip opens names hothers)
  rw [List.perm_ext_iff_of_nodup hnodup hnodup', visitsOf_eq_map, visitsOf_eq_map]
  intro group
  rw [List.mem_map, List.mem_map]
  constructor
  · rintro ⟨child, hchild, rfl⟩
    obtain ⟨other, hmem, heq⟩ := hvisits child hchild
    exact ⟨(child.1, other), hmem, by rw [heq]⟩
  · rintro ⟨⟨name, other⟩, hmem, rfl⟩
    obtain ⟨child, hchild⟩ := exists_mem_of_agreeOutside hothers h hmem
    obtain ⟨found, hfound, heq⟩ := hvisits (name, child) hchild
    -- a name stands in a directory once, so the entry found is the one at hand
    have hreached : (directory others).at? [name] = some found := at?_of_mem hothers hfound
    obtain rfl : found = other := Option.some.inj (hreached.symm.trans (at?_of_mem hothers hmem))
    exact ⟨(name, child), hchild, by rw [heq]⟩

/-- A walk meets the same in trees that agree outside ignored directories. -/
theorem visits_eq_of_agreeOutside {entry other : Entry} (hformed : entry.WellFormed)
    (hother : other.WellFormed) (h : AgreeOutside skip entry other) :
    ∀ names, visits skip opens names entry = visits skip opens names other := by
  -- induction on one of the trees; the other one has the same kinds of entries at the same names
  induction entry using treeInduction generalizing other with
  | file content =>
    obtain rfl := eq_of_surface_eq h.surface_eq rfl
    exact fun _ => rfl
  | link target =>
    obtain rfl := eq_of_surface_eq h.surface_eq rfl
    exact fun _ => rfl
  | directory entries ih =>
    intro names
    obtain ⟨others, rfl⟩ := exists_directory_of_surface h.surface_eq
    have hvisits : ∀ child ∈ entries, ∃ other, (child.1, other) ∈ others ∧
        visitsAt skip opens names child = visitsAt skip opens names (child.1, other) :=
      fun child hchild => exists_visitsAt_eq opens hformed hother h hchild
        fun other hagree hwell => ih child hchild (hformed.of_at? (at?_of_mem hformed hchild)) hwell
          hagree (names ++ [child.1])
    rw [visits, visits, inNameOrder_eq_of_perm (nodup_visitsOf skip opens names hformed)
      (visitsOf_perm opens hformed hother h names hvisits)]

end Entry

namespace IgnoreSet

/-! ## Names past ignored directories -/

/-- Plain names, none of which is that of an ignored directory. -/
def Admits (ignore : IgnoreSet) (names : List String) : Prop :=
  ∀ name ∈ names, IsPlainName name ∧ ignore.contains name = false

/-- Plain names that do not lead below an ignored directory, although they may lead to one. -/
def Reveals (ignore : IgnoreSet) (names : List String) : Prop :=
  (∀ name ∈ names, IsPlainName name) ∧ Entry.LeadsOutside ignore.skips (names.map .text)

variable {ignore : IgnoreSet}

theorem admits_nil : ignore.Admits [] := by
  simp [Admits]

theorem reveals_singleton {name : String} (h : IsPlainName name) : ignore.Reveals [name] := by
  simpa [Reveals, Entry.LeadsOutside] using h

theorem Admits.skips_eq_false {names : List String} (h : ignore.Admits names) :
    ∀ name ∈ names.map NativeText.text, ignore.skips name = false := by
  intro name hname
  obtain ⟨value, hvalue, rfl⟩ := List.mem_map.1 hname
  exact (h value hvalue).2

theorem Admits.append {front back : List String} (hfront : ignore.Admits front)
    (hback : ignore.Reveals back) : ignore.Reveals (front ++ back) := by
  constructor
  · intro name hname
    exact (List.mem_append.1 hname).elim (fun hname => (hfront name hname).1) (hback.1 name)
  · rw [List.map_append]
    exact Entry.leadsOutside_append hfront.skips_eq_false hback.2

end IgnoreSet

namespace FileSystem

/-! ## File systems -/

/-- What a path leads to is a tree as file systems keep it. -/
theorem wellFormed_of_find? {system : FileSystem} (h : system.root.WellFormed) {path : Path}
    {entry : Entry} (hentry : system.find? path = some entry) : entry.WellFormed := by
  rw [find?, Option.bind_eq_some_iff] at hentry
  obtain ⟨place, -, hplace⟩ := hentry
  exact h.of_at? hplace

/-- A walk that follows no links meets what it meets in the tree to which its path leads. -/
theorem visits_eq_of_find? (system : FileSystem) (path : Path) (ignore : IgnoreSet) :
    system.visits path ignore false =
      (system.find? path).elim [] fun entry =>
        entry.visits ignore.skips (fun names => opens (path.joinNames? names)) [] := by
  rw [visits, find?]
  cases system.place? path with
  | none => rfl
  | some place =>
    rw [Option.bind_some]
    cases hentry : system.root.at? place.names with
    | none => simp [hentry]
    | some entry => simp [hentry]

/-- A walk that follows no links does not come below an ignored directory, nor into one. -/
theorem reveals_of_mem_visits {system : FileSystem} (h : system.root.WellFormed) {path : Path}
    {ignore : IgnoreSet} {names : List String} {isDirectory : Bool}
    (hvisit : ⟨names.map .text, isDirectory⟩ ∈ system.visits path ignore false) :
    ignore.Reveals names ∧ (isDirectory = true → ignore.Admits names) := by
  have hplain := NativeText.isPlainName_of_map_text
    ((pairwise_visits h path ignore false).2 _ hvisit)
  rw [visits_eq_of_find?] at hvisit
  cases hentry : system.find? path with
  | none => simp [hentry] at hvisit
  | some entry =>
    rw [hentry, Option.elim_some] at hvisit
    obtain ⟨below, hbelow, houtside, hopen⟩ :=
      Entry.leadsOutside_of_mem_visits _ _ entry [] _ hvisit
    obtain rfl : names.map .text = below := hbelow
    exact ⟨⟨hplain, houtside⟩, fun hkind name hname =>
      ⟨hplain name hname, hopen hkind (.text name) (List.mem_map_of_mem hname)⟩⟩

/-- Directories without links stand at the same absolute path in two file systems, and agree outside
ignored directories. -/
structure AgreeBelow (ignore : IgnoreSet) (root : Path) (system other : FileSystem) : Prop where
  formed : system.root.WellFormed
  formed_other : other.root.WellFormed
  trees : ∃ entries others, system.Stands root entries ∧ other.Stands root others ∧
    (Entry.directory entries).LinkFree ∧ (Entry.directory others).LinkFree ∧
    Entry.AgreeOutside ignore.skips (.directory entries) (.directory others)

section AgreeBelow

variable {ignore : IgnoreSet} {root : Path} {system other : FileSystem} {names : List String}
variable (h : AgreeBelow ignore root system other)

include h

/-- Where names do not lead below an ignored directory, the same can be seen. -/
theorem AgreeBelow.map_surface_find? (hnames : ignore.Reveals names) :
    (system.find? (root.joinAll names)).map Entry.surface =
      (other.find? (root.joinAll names)).map Entry.surface := by
  obtain ⟨entries, others, hstands, hstands', hlinks, hlinks', hagree⟩ := h.trees
  rw [find?_joinAll hstands hlinks hnames.1, find?_joinAll hstands' hlinks' hnames.1]
  split
  · exact hagree _ hnames.2
  · rfl

theorem AgreeBelow.contains_eq (hnames : ignore.Reveals names) :
    system.contains (root.joinAll names) = other.contains (root.joinAll names) := by
  have hsurface := congrArg Option.isSome (h.map_surface_find? hnames)
  rwa [Option.isSome_map, Option.isSome_map] at hsurface

theorem AgreeBelow.size?_eq (hnames : ignore.Reveals names) :
    system.size? (root.joinAll names) = other.size? (root.joinAll names) := by
  have hsurface := congrArg (Option.map Entry.size) (h.map_surface_find? hnames)
  simpa [size?, Function.comp_def] using hsurface

theorem AgreeBelow.read?_eq (hnames : ignore.Reveals names) :
    system.read? (root.joinAll names) = other.read? (root.joinAll names) := by
  have hsurface := congrArg (fun entry? => entry?.bind Entry.content?) (h.map_surface_find? hnames)
  simpa [read?, Option.bind_map, Function.comp_def] using hsurface

/-- Where no name is that of an ignored directory, trees stand that agree outside. -/
theorem AgreeBelow.rel_find? (hnames : ignore.Admits names) :
    Option.Rel (Entry.AgreeOutside ignore.skips) (system.find? (root.joinAll names))
      (other.find? (root.joinAll names)) := by
  obtain ⟨entries, others, hstands, hstands', hlinks, hlinks', hagree⟩ := h.trees
  have hplain := fun name hname => (hnames name hname).1
  have hskip := hnames.skips_eq_false
  rw [find?_joinAll hstands hlinks hplain, find?_joinAll hstands' hlinks' hplain]
  split
  · cases hentry : (Entry.directory entries).at? (names.map .text) with
    | none =>
      cases hother : (Entry.directory others).at? (names.map .text) with
      | none => exact .none
      | some found =>
        obtain ⟨_, hfound, -⟩ := hagree.symm.exists_at? hskip hother
        exact nomatch hentry.symm.trans hfound
    | some entry =>
      obtain ⟨found, hfound, hbelow⟩ := hagree.exists_at? hskip hentry
      rw [hfound]
      exact .some hbelow
  · exact .none

/-- A walk that follows no links and does not start in an ignored directory meets the same. -/
theorem AgreeBelow.visits_eq (hnames : ignore.Admits names) :
    system.visits (root.joinAll names) ignore false =
      other.visits (root.joinAll names) ignore false := by
  have hrel := h.rel_find? hnames
  have hformed := fun entry => @wellFormed_of_find? system h.formed (root.joinAll names) entry
  have hother := fun entry => @wellFormed_of_find? other h.formed_other (root.joinAll names) entry
  rw [visits_eq_of_find?, visits_eq_of_find?]
  generalize system.find? (root.joinAll names) = entry? at hrel hformed
  generalize other.find? (root.joinAll names) = other? at hrel hother
  cases hrel with
  | none => rfl
  | some hagree =>
    exact Entry.visits_eq_of_agreeOutside _ (hformed _ rfl) (hother _ rfl) hagree []

end AgreeBelow

/-! ## Workspaces -/

/-- A workspace without links: what stands where a path leads, and the path without links that leads
there. -/
structure IsWorkspace (system : FileSystem) (path root : Path) (tree : Entry) : Prop where
  formed : system.root.WellFormed
  canonical : system.canonical? path = some root
  found : system.find? root = some tree
  linkFree : tree.LinkFree

section IsWorkspace

variable {system other : FileSystem} {path root : Path} {tree changed : Entry}
variable (h : system.IsWorkspace path root tree)

include h

theorem IsWorkspace.isDirectory_eq : system.isDirectory root = tree.isDirectory := by
  rw [isDirectory, h.found, Option.any_some]

theorem IsWorkspace.exists_stands (hdirectory : tree.isDirectory = true) :
    ∃ entries, tree = .directory entries ∧ system.Stands root entries := by
  obtain ⟨entries, hstands, hfound⟩ :=
    stands_of_canonical? h.formed h.canonical (h.isDirectory_eq.trans hdirectory)
  exact ⟨entries, Option.some.inj (h.found.symm.trans hfound), hstands⟩

/-- Workspaces agree if their trees do. -/
theorem IsWorkspace.agreeBelow (hother : other.IsWorkspace path root changed)
    (hdirectory : tree.isDirectory = true) {ignore : IgnoreSet}
    (hagree : tree.AgreeOutside ignore.skips changed) : AgreeBelow ignore root system other := by
  obtain ⟨entries, rfl, hstands⟩ := h.exists_stands hdirectory
  obtain ⟨others, rfl, hstands'⟩ := hother.exists_stands (hagree.isDirectory_eq.trans hdirectory)
  exact {
    formed := h.formed
    formed_other := hother.formed
    trees := ⟨entries, others, hstands, hstands', h.linkFree, hother.linkFree, hagree⟩ }

end IsWorkspace

end FileSystem

end CodeSurvey
