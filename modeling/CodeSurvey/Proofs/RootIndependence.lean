import CodeSurvey.Scan.Basic
import CodeSurvey.Proofs.DisplayNames
import CodeSurvey.Proofs.TreeLookup

/-!
# Where a workspace lives

Two workspaces in which the same can be seen below their roots, wherever these are. The names of
projects do not show where the root is. Which directories are projects does, by one rule: whether a
directory holds other projects depends on the name of what it lies in, and for a directory right
below the root this is the name of the root.

## Key results

- `displayNames_joinAll`: the names of projects do not depend on the root
- `isProject_joinAll_eq_iff`: when it depends on the root whether a directory is a project
- `listing_eq_iff`: when two workspaces have the same projects
-/

namespace CodeSurvey

namespace Detection

/-! ## Directories below a root -/

section Below

variable {settings : ScanSettings} {root : Path} {names : List String}
variable (hplain : ∀ name ∈ names, IsPlainName name)

include hplain

theorem isReachedBy_joinAll : IsReachedBy root (root.joinAll names) names := by
  rw [IsReachedBy, Path.below?, Path.components_joinAll root hplain, Path.dropSteps_append]

theorem sameSteps_joinAll : (root.joinAll names).sameSteps root = names.isEmpty := by
  rw [Path.sameSteps, Path.components_joinAll root hplain]
  cases names with
  | nil => simp
  | cons name rest => simp

theorem fileName?_joinAll (hne : names ≠ []) :
    (root.joinAll names).fileName? = names.getLast? := by
  rw [Path.fileName?, Path.lastName?, Path.components_joinAll root hplain, List.getLast?_append,
    List.getLast?_map]
  obtain ⟨last, hlast⟩ := Option.isSome_iff_exists.1 (List.getLast?_isSome.2 hne)
  rw [hlast]
  rfl

omit hplain in
/-- What a directory lies in: the one above it, which may be the root. -/
theorem parentName?_joinAll_concat {front : List String} {name : String}
    (hplain : ∀ step ∈ front ++ [name], IsPlainName step) :
    (root.joinAll (front ++ [name])).parentName? = front.getLast?.or root.fileName? := by
  have hdrop : (root.components ++ (front ++ [name]).map PathComponent.name).dropLast =
      root.components ++ front.map PathComponent.name := by
    rw [List.map_append, ← List.append_assoc, List.map_singleton, List.dropLast_concat]
  rw [Path.parentName?, Path.lastName?, Path.components_joinAll root hplain, hdrop,
    List.getLast?_append, List.getLast?_map, Path.fileName?, Path.lastName?]
  cases front.getLast? <;> rfl

end Below

/-! ## Names -/

/-- The name of a project does not depend on the root. -/
theorem projectName_joinAll (settings : ScanSettings) (root elsewhere : Path) {names : List String}
    (hne : names ≠ []) (hplain : ∀ name ∈ names, IsPlainName name) :
    projectName settings root (root.joinAll names) =
      projectName settings elsewhere (elsewhere.joinAll names) := by
  obtain ⟨last, hlast⟩ := Option.isSome_iff_exists.1 (List.getLast?_isSome.2 hne)
  rw [projectName, projectName, namesOf_relativeSteps (isReachedBy_joinAll hplain),
    namesOf_relativeSteps (isReachedBy_joinAll hplain), fileName?_joinAll hplain hne,
    fileName?_joinAll hplain hne, hlast]
  rfl

/-- The names under which projects are listed do not depend on the root. -/
theorem displayNames_joinAll (settings : ScanSettings) (root elsewhere : Path)
    {dirs : List (List String)}
    (h : ∀ names ∈ dirs, names ≠ [] ∧ ∀ name ∈ names, IsPlainName name) :
    displayNames settings root (dirs.map root.joinAll) =
      displayNames settings elsewhere (dirs.map elsewhere.joinAll) := by
  have hnames : (dirs.map root.joinAll).map (projectName settings root) =
      (dirs.map elsewhere.joinAll).map (projectName settings elsewhere) := by
    rw [List.map_map, List.map_map]
    exact List.map_congr_left fun names hmem =>
      projectName_joinAll settings root elsewhere (h names hmem).1 (h names hmem).2
  simp only [displayNames, hnames, List.map_map]
  apply List.map_congr_left
  intro names hmem
  obtain ⟨hne, hplain⟩ := h names hmem
  simp only [Function.comp_apply]
  rw [projectName_joinAll settings root elsewhere hne hplain,
    qualifiedName_eq (isReachedBy_joinAll hplain), qualifiedName_eq (isReachedBy_joinAll hplain)]

/-! ## Selection -/

/-- Whether a name is that of directories in which some directories hold other projects. -/
def isContainerRoot (settings : ScanSettings) (name : String) : Bool :=
  Text.equalIgnoringAsciiCase name settings.containerRoot

/-- Whether directories of this name hold other projects if they lie in a directory whose name says
so. -/
def isContainerName (settings : ScanSettings) (name : String) : Bool :=
  settings.containerNames.any (Text.equalIgnoringAsciiCase · name)

theorem isContainer_joinAll_concat {settings : ScanSettings} {root : Path} {front : List String}
    {name : String} (hplain : ∀ step ∈ front ++ [name], IsPlainName step) :
    isContainer settings (root.joinAll (front ++ [name])) =
      (isContainerRoot settings name ||
        ((front.getLast?.or root.fileName?).any (isContainerRoot settings) &&
          isContainerName settings name)) := by
  rw [isContainer, fileName?_joinAll hplain (by simp), parentName?_joinAll_concat hplain,
    List.getLast?_concat]
  rfl

/-- Which directories below a root are projects. -/
theorem isProject_joinAll_concat {system : FileSystem} {settings : ScanSettings} {root : Path}
    {front : List String} {name : String}
    (hplain : ∀ step ∈ front ++ [name], IsPlainName step) :
    isProject system settings root (root.joinAll (front ++ [name])) =
      (hasMarker system settings (root.joinAll (front ++ [name])) &&
        !(isContainerRoot settings name ||
          ((front.getLast?.or root.fileName?).any (isContainerRoot settings) &&
            isContainerName settings name)) &&
        !(serverlessIndex? settings (front ++ [name])).isSome) := by
  have hnonempty : (front ++ [name]).isEmpty = false := by simp
  rw [isProject, sameSteps_joinAll hplain, isContainer_joinAll_concat hplain, isServerless,
    namesOf_relativeSteps (isReachedBy_joinAll hplain), hnonempty, Bool.not_false, Bool.true_and]

/-- A directory that is a project under some roots only: it lies right below the root, holds a
marker, and holds other projects by its name if the name of the root says so. -/
def DependsOnRoot (system : FileSystem) (settings : ScanSettings) (root : Path)
    (names : List String) : Prop :=
  ∃ name, names = [name] ∧ hasMarker system settings (root.joinAll names) = true ∧
    isContainerName settings name = true ∧ isContainerRoot settings name = false

/-- Whether a directory is a project depends on the root only if it lies right below, and then only
on whether directories there hold other projects. -/
theorem isProject_joinAll_eq_iff {system other : FileSystem} {settings : ScanSettings}
    {root elsewhere : Path} {names : List String} (hplain : ∀ name ∈ names, IsPlainName name)
    (hmarker : hasMarker system settings (root.joinAll names) =
      hasMarker other settings (elsewhere.joinAll names)) :
    isProject system settings root (root.joinAll names) =
        isProject other settings elsewhere (elsewhere.joinAll names) ↔
      root.fileName?.any (isContainerRoot settings) =
          elsewhere.fileName?.any (isContainerRoot settings) ∨
        ¬ DependsOnRoot system settings root names := by
  rcases List.eq_nil_or_concat' names with rfl | ⟨front, name, rfl⟩
  · -- the root itself is never a project
    have hnone : ∀ (system : FileSystem) (root : Path),
        isProject system settings root (root.joinAll []) = false := fun system root => by
      rw [isProject, sameSteps_joinAll (by simp)]
      rfl
    have hdepends : ¬ DependsOnRoot system settings root [] := by simp [DependsOnRoot]
    rw [hnone, hnone]
    exact iff_of_true rfl (.inr hdepends)
  · rw [isProject_joinAll_concat hplain, isProject_joinAll_concat hplain, ← hmarker]
    cases hlast : front.getLast? with
    | some parent =>
      -- the directory lies in another one below the root
      have hfront : front ≠ [] := fun hnil => by simp [hnil] at hlast
      have hdepends : ¬ DependsOnRoot system settings root (front ++ [name]) := by
        simp [DependsOnRoot, List.append_eq_singleton_iff, hfront]
      exact iff_of_true rfl (.inr hdepends)
    | none =>
      obtain rfl := List.getLast?_eq_none_iff.1 hlast
      -- one name alone is not a directory of serverless functions
      have hserverless : serverlessIndex? settings [name] = none := rfl
      simp only [List.nil_append, hserverless, Option.none_or, DependsOnRoot,
        List.cons.injEq, and_true, exists_eq_left']
      cases hasMarker system settings (root.joinAll [name]) <;>
        cases isContainerName settings name <;> cases isContainerRoot settings name <;> simp

/-- Markers are looked up in the tree that stands at the root. -/
theorem hasMarker_of_holds {system : FileSystem} {settings : ScanSettings} {root : Path}
    {entries : List (NativeText × Entry)} (h : system.Holds root entries)
    (hlinks : (Entry.directory entries).LinkFree)
    (hmarkers : ∀ marker ∈ settings.projectMarkers, IsPlainName marker) {names : List String}
    (hplain : ∀ name ∈ names, IsPlainName name) :
    hasMarker system settings (root.joinAll names) =
      settings.projectMarkers.any fun marker =>
        ((Entry.directory entries).at? ((names ++ [marker]).map .text)).isSome := by
  rw [hasMarker, Bool.eq_iff_iff, List.any_eq_true, List.any_eq_true]
  refine exists_congr fun marker => and_congr_right fun hmarker => ?_
  rw [← Path.joinAll_concat, FileSystem.contains_joinAll h hlinks]
  simpa [or_imp, forall_and] using ⟨hplain, hmarkers marker hmarker⟩

end Detection

/-! ## Workspaces that look alike -/

namespace Scanner

open Detection (displayNames hasMarker isProject isContainerRoot DependsOnRoot)

/-- The names below the root of the directories that a walk of the workspace lists. -/
def dirNames (scanner : Scanner) : List (List String) :=
  scanner.system.dirNames scanner.root scanner.settings.scan.ignoreSet
    scanner.settings.scan.followLinks

/-- The same can be seen below the roots of two workspaces: the same directories, with the same
markers in them. -/
structure LooksLike (a b : Scanner) : Prop where
  settings : a.settings.scan = b.settings.scan
  dirNames : a.dirNames = b.dirNames
  plain : ∀ names ∈ a.dirNames, ∀ name ∈ names, IsPlainName name
  markers : ∀ names ∈ a.dirNames,
    hasMarker a.system a.settings.scan (a.root.joinAll names) =
      hasMarker b.system b.settings.scan (b.root.joinAll names)

/-- The projects as they are listed: the steps of each below the root, and its name. -/
def listing (scanner : Scanner) : List (Option (List PathComponent) × String) :=
  scanner.detected.map fun project => (scanner.root.below? project.root, project.name)

/-- Directories directly below the root hold other projects if their names say so. -/
def liesInContainers (scanner : Scanner) : Bool :=
  scanner.root.fileName?.any (isContainerRoot scanner.settings.scan)

/-- The names below the root of the projects. -/
def projectNames (scanner : Scanner) : List (List String) :=
  scanner.dirNames.filter fun names =>
    isProject scanner.system scanner.settings.scan scanner.root (scanner.root.joinAll names)

theorem dirs_walk (scanner : Scanner) :
    (scanner.walk scanner.root).dirs = scanner.dirNames.map scanner.root.joinAll := rfl

/-- The projects are put beside their names. -/
theorem listing_eq_zip {scanner : Scanner}
    (hplain : ∀ names ∈ scanner.dirNames, ∀ name ∈ names, IsPlainName name) :
    scanner.listing =
      (scanner.projectNames.map fun names => some (names.map .name)).zip
        (displayNames scanner.settings.scan scanner.root
          (scanner.projectNames.map scanner.root.joinAll)) := by
  have hselected : Detection.detect scanner.system scanner.settings.scan scanner.root
      (scanner.walk scanner.root).dirs = scanner.projectNames.map scanner.root.joinAll := by
    rw [dirs_walk, Detection.detect, List.filter_map]
    rfl
  have hbelow : (scanner.projectNames.map scanner.root.joinAll).map scanner.root.below? =
      scanner.projectNames.map fun names => some (names.map .name) := by
    rw [List.map_map]
    exact List.map_congr_left fun names hnames =>
      Detection.isReachedBy_joinAll (hplain names (List.mem_filter.1 hnames).1)
  have hfirst : (fun project : Detected => (scanner.root.below? project.root, project.name)) ∘
      (fun entry : (Path × String) × Nat => (⟨entry.2, entry.1.1, entry.1.2⟩ : Detected)) =
      Prod.map scanner.root.below? id ∘ Prod.fst := rfl
  simp only [listing, detected, hselected, List.map_map]
  rw [hfirst, ← List.map_map, List.zipIdx_map_fst, ← List.zip_map_left, hbelow]

/-- The same projects are listed alike. -/
theorem listing_eq_iff_projectNames {a b : Scanner} (h : a.LooksLike b) :
    a.listing = b.listing ↔ a.projectNames = b.projectNames := by
  have hplain : ∀ names ∈ b.dirNames, ∀ name ∈ names, IsPlainName name := h.dirNames ▸ h.plain
  rw [listing_eq_zip h.plain, listing_eq_zip hplain]
  constructor
  · intro heq
    have hfirst := congrArg (List.map Prod.fst) heq
    rw [List.map_fst_zip (by simp), List.map_fst_zip (by simp)] at hfirst
    exact List.map_injective_iff.2 (fun _ _ hsame =>
      List.map_injective_iff.2 (fun _ _ hname => PathComponent.name.inj hname)
        (Option.some.inj hsame)) hfirst
  · intro heq
    have hnames : ∀ names ∈ a.projectNames, names ≠ [] ∧ ∀ name ∈ names, IsPlainName name := by
      intro names hnames
      have hmem := (List.mem_filter.1 hnames).1
      exact ⟨(FileSystem.mem_dirNames_iff.1 hmem).1, h.plain names hmem⟩
    rw [← heq, ← h.settings, Detection.displayNames_joinAll a.settings.scan a.root b.root hnames]

theorem projectNames_eq_iff {a b : Scanner} (h : a.LooksLike b) :
    a.projectNames = b.projectNames ↔
      ∀ names ∈ a.dirNames,
        isProject a.system a.settings.scan a.root (a.root.joinAll names) =
          isProject b.system b.settings.scan b.root (b.root.joinAll names) := by
  rw [projectNames, projectNames, ← h.dirNames]
  constructor
  · intro heq names hnames
    have hmem : names ∈ a.projectNames ↔ names ∈ b.projectNames := by
      rw [projectNames, projectNames, ← h.dirNames, heq]
    simpa only [projectNames, ← h.dirNames, List.mem_filter, hnames, true_and,
      ← Bool.eq_iff_iff] using hmem
  · exact List.filter_congr

/-- Two workspaces that look alike below their roots have the same projects exactly if their roots
are alike in whether directories right below hold other projects, or there is no directory of which
this decides whether it is a project. -/
theorem listing_eq_iff {a b : Scanner} (h : a.LooksLike b) :
    a.listing = b.listing ↔
      a.liesInContainers = b.liesInContainers ∨
        ∀ names ∈ a.dirNames, ¬ DependsOnRoot a.system a.settings.scan a.root names := by
  rw [listing_eq_iff_projectNames h, projectNames_eq_iff h]
  have hdir : ∀ names ∈ a.dirNames,
      (isProject a.system a.settings.scan a.root (a.root.joinAll names) =
        isProject b.system b.settings.scan b.root (b.root.joinAll names) ↔
      a.liesInContainers = b.liesInContainers ∨
        ¬ DependsOnRoot a.system a.settings.scan a.root names) := fun names hnames => by
    have hmarker := h.markers names hnames
    rw [← h.settings] at hmarker
    rw [liesInContainers, liesInContainers, ← h.settings]
    exact Detection.isProject_joinAll_eq_iff (h.plain names hnames) hmarker
  constructor
  · intro hall
    by_cases hroots : a.liesInContainers = b.liesInContainers
    · exact .inl hroots
    · exact .inr fun names hnames =>
        ((hdir names hnames).1 (hall names hnames)).resolve_left hroots
  · exact fun hcases names hnames => (hdir names hnames).2 (hcases.imp_right fun hno =>
      hno names hnames)

/-- The same directory without links at both roots, with all paths short enough, looks alike. -/
theorem looksLike_of_holds {a b : Scanner} (hsettings : a.settings.scan = b.settings.scan)
    {entries : List (NativeText × Entry)} (ha : a.system.Holds a.root entries)
    (hb : b.system.Holds b.root entries) (hformed : (Entry.directory entries).WellFormed)
    (hlinks : (Entry.directory entries).LinkFree)
    (hmarkers : ∀ marker ∈ a.settings.scan.projectMarkers, IsPlainName marker) :
    a.LooksLike b := by
  obtain ⟨expanded, hexpanded⟩ := hlinks.exists_isExpanded a.settings.scan.ignoreSet.skips
  have hvisits := FileSystem.visits_of_holds ha a.settings.scan.ignoreSet
    a.settings.scan.followLinks hexpanded
  have hothers := FileSystem.visits_of_holds hb a.settings.scan.ignoreSet
    a.settings.scan.followLinks hexpanded
  have hplain : ∀ names ∈ a.dirNames, ∀ name ∈ names, IsPlainName name := by
    intro names hnames
    obtain ⟨-, hmet⟩ := FileSystem.mem_dirNames_iff.1 hnames
    rw [hvisits] at hmet
    obtain ⟨below, hbelow, hpath⟩ := Entry.hasPath_of_mem_visits _ _ _ [] _ hmet
    obtain rfl : names.map .text = below := hbelow
    apply NativeText.isPlainName_of_map_text
    split at hpath
    · exact hformed.isPlain_of_hasPath (hexpanded.2 _ hpath)
    · exact hformed.isPlain_of_hasPath hpath
  exact {
    settings := hsettings
    dirNames := by
      rw [dirNames, dirNames, ← hsettings, FileSystem.dirNames, FileSystem.dirNames,
        FileSystem.collect, FileSystem.collect, hvisits, hothers]
    plain := hplain
    markers := fun names hnames => by
      rw [← hsettings, Detection.hasMarker_of_holds ha hlinks hmarkers (hplain names hnames),
        Detection.hasMarker_of_holds hb hlinks hmarkers (hplain names hnames)] }

/-- Two workspaces look alike below their roots if the same directory stands at both. Then they
have the same projects under the same names exactly if their roots are alike in whether directories
right below hold other projects, or there is no directory of which this decides whether it is a
project. The names of given projects do not depend on the roots at all. -/
theorem listing_eq_iff_liesInContainers (a b : Scanner)
    (hsettings : a.settings.scan = b.settings.scan) :
    (∀ entries, a.system.Holds a.root entries → b.system.Holds b.root entries →
      (Entry.directory entries).WellFormed → (Entry.directory entries).LinkFree →
      (∀ marker ∈ a.settings.scan.projectMarkers, IsPlainName marker) → a.LooksLike b) ∧
    (a.LooksLike b →
      (a.listing = b.listing ↔
        a.liesInContainers = b.liesInContainers ∨
          ∀ names ∈ a.dirNames, ¬ DependsOnRoot a.system a.settings.scan a.root names)) ∧
    ∀ dirs : List (List String),
      (∀ names ∈ dirs, names ≠ [] ∧ ∀ name ∈ names, IsPlainName name) →
      displayNames a.settings.scan a.root (dirs.map a.root.joinAll) =
        displayNames b.settings.scan b.root (dirs.map b.root.joinAll) := by
  refine ⟨fun entries ha hb hformed hlinks hmarkers =>
    looksLike_of_holds hsettings ha hb hformed hlinks hmarkers, listing_eq_iff, fun dirs h => ?_⟩
  rw [← hsettings]
  exact Detection.displayNames_joinAll a.settings.scan a.root b.root h

/-! ## One directory at two roots -/

/-- A directory with one project, whose name is that of directories that hold other projects where
the name of what they lie in says so. -/
def groupedEntries : List (NativeText × Entry) :=
  [("bitbucket", .directory [("package.json", .file "\x7b\x7d".toUTF8)])]

/-- The directory right below the root of a file system, under some name. -/
def grouped (name : String) : Scanner where
  system := ⟨.directory [(name, .directory groupedEntries)], []⟩
  root := .absolute [name]
  settings := {}
  versionControl := .clean

theorem wellFormed_grouped : (Entry.directory groupedEntries).WellFormed := by
  decide +kernel

theorem linkFree_grouped : (Entry.directory groupedEntries).LinkFree :=
  .directory (by
    simp only [groupedEntries, List.forall_mem_singleton]
    exact .directory (by simpa using .file _))

/-- All names that lead down the directory. -/
def groupedNames : List (List NativeText) :=
  [[], ["bitbucket"], ["bitbucket", "package.json"]]

theorem mem_groupedNames {names : List NativeText}
    (h : (Entry.directory groupedEntries).HasPath names) : names ∈ groupedNames := by
  simpa [groupedEntries, groupedNames, Entry.hasPath_directory_iff, Entry.hasPath_file_iff] using h

theorem holds_grouped {name : String} (hname : IsPlainName name)
    (hreach : ∀ names ∈ groupedNames,
      FileSystem.opens ((Path.absolute [name]).joinNames? names) = true) :
    (grouped name).system.Holds (grouped name).root groupedEntries where
  place := ⟨[name], by simpa using hname, rfl, by simp [grouped, Entry.at?, Entry.child?]⟩
  reach names hnames := (FileSystem.opens_joinNames? _).1 (hreach _ (mem_groupedNames hnames)) names
    rfl

theorem dirNames_grouped {name : String}
    (h : (grouped name).system.Holds (grouped name).root groupedEntries) :
    (grouped name).dirNames = [["bitbucket"]] := by
  obtain ⟨expanded, hexpanded⟩ :=
    linkFree_grouped.exists_isExpanded (grouped name).settings.scan.ignoreSet.skips
  have hsettings : (grouped name).settings = {} := rfl
  rw [dirNames, FileSystem.dirNames, FileSystem.collect,
    FileSystem.visits_of_holds h _ _ hexpanded, hsettings]
  simp only [Bool.false_eq_true, if_false, groupedEntries, Entry.visits_directory_singleton,
    ScanSettings.ignoreSet, IgnoreSet.skips_text, IgnoreSet.contains_ofNames]
  decide +kernel

theorem listing_grouped {name : String}
    (h : (grouped name).system.Holds (grouped name).root groupedEntries) :
    (grouped name).listing =
      let names := [["bitbucket"]].filter fun names =>
        isProject (grouped name).system {} (grouped name).root ((grouped name).root.joinAll names)
      (names.map fun names => some (names.map .name)).zip
        (displayNames {} (grouped name).root (names.map (grouped name).root.joinAll)) := by
  have hdirs := dirNames_grouped h
  have hplain : ∀ names ∈ (grouped name).dirNames, ∀ step ∈ names, IsPlainName step := by
    rw [hdirs]
    decide +kernel
  rw [listing_eq_zip hplain, projectNames, hdirs]
  rfl

/-- The same directory at two roots. The names of the roots decide whether its project is listed. -/
theorem listing_ne_of_root_name :
    (grouped "ws").system.Holds (grouped "ws").root groupedEntries ∧
    (grouped "svn").system.Holds (grouped "svn").root groupedEntries ∧
    (grouped "ws").listing = [(some [.name "bitbucket"], "bitbucket")] ∧
    (grouped "svn").listing = [] := by
  have hws := holds_grouped (by decide +kernel : IsPlainName "ws") (by decide +kernel)
  have hsvn := holds_grouped (by decide +kernel : IsPlainName "svn") (by decide +kernel)
  refine ⟨hws, hsvn, ?_, ?_⟩
  · rw [listing_grouped hws]
    decide +kernel
  · rw [listing_grouped hsvn]
    decide +kernel

/-- The listings agree under two roots whose names mean nothing, and differ if the name of one says
that the directories below hold other projects. -/
theorem listing_eq_iff_liesInContainers_grouped :
    (grouped "ws").LooksLike (grouped "home") ∧
    (grouped "ws").listing = (grouped "home").listing ∧
    (grouped "ws").LooksLike (grouped "svn") ∧
    (grouped "ws").listing ≠ (grouped "svn").listing := by
  have hplain : ∀ marker ∈ (grouped "ws").settings.scan.projectMarkers, IsPlainName marker := by
    decide +kernel
  have hws := holds_grouped (by decide +kernel : IsPlainName "ws") (by decide +kernel)
  have hhome := holds_grouped (by decide +kernel : IsPlainName "home") (by decide +kernel)
  have hsvn := holds_grouped (by decide +kernel : IsPlainName "svn") (by decide +kernel)
  obtain ⟨halike, hiff, -⟩ := listing_eq_iff_liesInContainers (grouped "ws") (grouped "home") rfl
  obtain ⟨halike', hiff', -⟩ := listing_eq_iff_liesInContainers (grouped "ws") (grouped "svn") rfl
  have hlooks := halike groupedEntries hws hhome wellFormed_grouped linkFree_grouped hplain
  have hlooks' := halike' groupedEntries hws hsvn wellFormed_grouped linkFree_grouped hplain
  refine ⟨hlooks, (hiff hlooks).2 (.inl (by decide +kernel)), hlooks', fun heq => ?_⟩
  rcases (hiff' hlooks').1 heq with hroots | hnone
  · exact absurd hroots (by decide +kernel)
  · refine hnone ["bitbucket"] (by rw [dirNames_grouped hws]; exact List.mem_cons_self) ?_
    exact ⟨"bitbucket", rfl, by decide +kernel, by decide +kernel, by decide +kernel⟩

end Scanner

end CodeSurvey
