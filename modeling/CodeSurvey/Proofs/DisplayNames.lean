import CodeSurvey.Detection
import CodeSurvey.Proofs.LowerCase
import CodeSurvey.Proofs.PathComponents

/-!
# Display names

The names under which projects are listed are their own, or their paths below the root where
several projects share a name, whatever its case. They differ, whatever their case, exactly if the
paths do: two directories side by side whose names differ in case only are listed under names that
differ in case only.

## Key results

- `projectName_eq_getLast`: a project that was selected is named after its own directory
- `displayName_eq_iff` / `nodup_displayNames`: projects are listed under different names
- `nodup_lower_displayNames_iff`: when the names of projects are unique ignoring case
-/

namespace CodeSurvey.Detection

open Text (lower)

/-- A directory is reached from the root by some names. -/
def IsReachedBy (root dir : Path) (names : List String) : Prop :=
  root.below? dir = some (names.map .name)

/-- The name under which one of some directories is listed. -/
def displayName (settings : ScanSettings) (root : Path) (dirs : List Path) (dir : Path) : String :=
  let name := projectName settings root dir
  if ((dirs.map (projectName settings root)).map lower).count (lower name) < 2 then name
  else qualifiedName root dir

theorem displayNames_eq_map (settings : ScanSettings) (root : Path) (dirs : List Path) :
    displayNames settings root dirs = dirs.map (displayName settings root dirs) := rfl

/-! ## Selected projects -/

section Selected

variable {system : FileSystem} {settings : ScanSettings} {root dir : Path} {names : List String}
variable (hreached : IsReachedBy root dir names)

include hreached

theorem namesOf_relativeSteps : Path.namesOf (root.relativeSteps dir) = names := by
  have hbelow : root.below? dir = some (names.map .name) := hreached
  rw [Path.relativeSteps, hbelow, Option.getD_some, Path.namesOf, List.filterMap_map]
  exact List.filterMap_some

theorem qualifiedName_eq : qualifiedName root dir = "/".intercalate names := by
  rw [qualifiedName, namesOf_relativeSteps hreached]

theorem components_eq_append : dir.components = root.components ++ names.map .name :=
  Path.eq_append_of_dropSteps hreached

/-- No name on the way to a directory holds a slash. -/
theorem no_slash_of_isReachedBy : ∀ name ∈ names, '/' ∉ name.toList := by
  intro name hname
  have hmem : PathComponent.name name ∈ dir.components := by
    rw [components_eq_append hreached]
    exact List.mem_append_right _ (List.mem_map_of_mem hname)
  exact (Path.isPlainName_of_mem_components hmem).no_slash

variable (hproject : isProject system settings root dir = true)

include hproject

/-- A project is not the root itself. -/
theorem ne_nil_of_isProject : names ≠ [] := by
  rintro rfl
  have hcomponents := components_eq_append hreached
  rw [List.map_nil, List.append_nil] at hcomponents
  simp [isProject, Path.sameSteps, hcomponents] at hproject

/-- A project that was selected is named after its own directory. -/
theorem projectName_eq_getLast : names.getLast? = some (projectName settings root dir) := by
  have hserverless : serverlessIndex? settings names = none := by
    have hnone : isServerless settings (root.relativeSteps dir) = false := by
      simp only [isProject, Bool.and_eq_true, Bool.not_eq_true'] at hproject
      exact hproject.2
    rw [isServerless, namesOf_relativeSteps hreached] at hnone
    simpa using hnone
  obtain ⟨last, hlast⟩ := Option.isSome_iff_exists.1
    (List.getLast?_isSome.2 (ne_nil_of_isProject hreached hproject))
  have hfile : dir.fileName? = some last := by
    rw [Path.fileName?, Path.lastName?, components_eq_append hreached, List.getLast?_append,
      List.getLast?_map, hlast]
    rfl
  rw [projectName, namesOf_relativeSteps hreached, hserverless, hfile, hlast]
  rfl

/-- The name of a project is one name. -/
theorem slash_not_mem_projectName : '/' ∉ (projectName settings root dir).toList :=
  no_slash_of_isReachedBy hreached _
    (List.mem_of_getLast? (projectName_eq_getLast hreached hproject))

/-- A project whose path below the root is one name is listed under it in either case. -/
theorem qualifiedName_eq_projectName (h : '/' ∉ (qualifiedName root dir).toList) :
    qualifiedName root dir = projectName settings root dir := by
  have hlast := projectName_eq_getLast hreached hproject
  rw [qualifiedName_eq hreached] at h ⊢
  match names with
  | [] => exact nomatch hlast
  | [name] =>
    rw [String.intercalate_singleton]
    exact Option.some.inj hlast
  | name :: next :: rest => simp at h

end Selected

/-- Paths below the root that agree in lower case lead to projects whose names do. -/
theorem lower_projectName_eq {system : FileSystem} {settings : ScanSettings} {root a b : Path}
    {here there : List String} (ha : IsReachedBy root a here) (hb : IsReachedBy root b there)
    (haproject : isProject system settings root a = true)
    (hbproject : isProject system settings root b = true)
    (h : lower (qualifiedName root a) = lower (qualifiedName root b)) :
    lower (projectName settings root a) = lower (projectName settings root b) := by
  -- lower-casing keeps the slashes, so the names can be read off the paths again
  have hnames : ∀ {dir : Path} {names : List String}, IsReachedBy root dir names →
      isProject system settings root dir = true →
      Path.segments (lower (qualifiedName root dir)) = names.map lower := by
    intro dir names hreached hproject
    rw [qualifiedName_eq hreached, Text.lower_intercalate]
    apply Path.segments_intercalate
    · simpa using ne_nil_of_isProject hreached hproject
    · intro name hname
      obtain ⟨raw, hraw, rfl⟩ := List.mem_map.1 hname
      rw [Text.slash_mem_lower_iff]
      exact no_slash_of_isReachedBy hreached raw hraw
  have heq : here.map lower = there.map lower := by
    rw [← hnames ha haproject, ← hnames hb hbproject, h]
  have hlast := congrArg List.getLast? heq
  rw [List.getLast?_map, List.getLast?_map, projectName_eq_getLast ha haproject,
    projectName_eq_getLast hb hbproject] at hlast
  exact Option.some.inj hlast

/-- A name of a project that agrees with the path of another one is its name too, since the path
holds no slash then. -/
theorem lower_projectName_eq_of_qualifiedName {system : FileSystem} {settings : ScanSettings}
    {root a b : Path} {there : List String} (hslash : '/' ∉ (projectName settings root a).toList)
    (hb : IsReachedBy root b there) (hbproject : isProject system settings root b = true)
    (h : lower (projectName settings root a) = lower (qualifiedName root b)) :
    lower (projectName settings root a) = lower (projectName settings root b) := by
  rw [← Text.slash_mem_lower_iff, h, Text.slash_mem_lower_iff] at hslash
  rw [h, qualifiedName_eq_projectName hb hbproject hslash]

/-! ## Uniqueness -/

section Uniqueness

variable {system : FileSystem} {settings : ScanSettings} {root : Path} {candidates : List Path}
variable (hreached : ∀ dir ∈ candidates, ∃ names, IsReachedBy root dir names)

/-- Two projects on a list with one name, in whatever case, share it. -/
theorem two_le_count_of_sublist (settings : ScanSettings) (root : Path) {dirs : List Path}
    {a b : Path} (h : [a, b].Sublist dirs)
    (heq : lower (projectName settings root a) = lower (projectName settings root b)) :
    2 ≤ ((dirs.map (projectName settings root)).map lower).count
      (lower (projectName settings root a)) := by
  have hcount := ((h.map (projectName settings root)).map lower).count_le
    (lower (projectName settings root a))
  simp only [List.map_cons, List.map_nil, ← heq, List.count_cons_self, List.count_nil] at hcount
  exact hcount

/-- Projects that share a name are listed by their paths. -/
theorem displayName_eq_qualifiedName (settings : ScanSettings) (root : Path) {dirs : List Path}
    {a b : Path} (h : [a, b].Sublist dirs)
    (heq : lower (projectName settings root a) = lower (projectName settings root b)) :
    displayName settings root dirs a = qualifiedName root a ∧
      displayName settings root dirs b = qualifiedName root b := by
  have hcount := two_le_count_of_sublist settings root h heq
  simp only [displayName]
  rw [if_neg (by omega), if_neg (by rw [← heq]; omega)]
  exact ⟨rfl, rfl⟩

include hreached

/-- Two projects are listed under names that agree in lower case exactly if their paths do. -/
theorem lower_displayName_eq_iff {a b : Path}
    (h : [a, b].Sublist (detect system settings root candidates)) :
    lower (displayName settings root (detect system settings root candidates) a) =
        lower (displayName settings root (detect system settings root candidates) b) ↔
      lower (qualifiedName root a) = lower (qualifiedName root b) := by
  obtain ⟨hacandidate, haproject⟩ := mem_detect.1 (h.subset List.mem_cons_self)
  obtain ⟨hbcandidate, hbproject⟩ := mem_detect.1 (h.subset (by simp : b ∈ [a, b]))
  obtain ⟨here, ha⟩ := hreached a hacandidate
  obtain ⟨there, hb⟩ := hreached b hbcandidate
  have hcount := two_le_count_of_sublist settings root h
  have haslash := slash_not_mem_projectName ha haproject
  have hbslash := slash_not_mem_projectName hb hbproject
  constructor
  · intro heq
    simp only [displayName] at heq
    -- a name that is kept is shared with no other project
    split at heq
    · rename_i hafew
      split at heq
      · exact absurd (hcount heq) (by omega)
      · have hsame := lower_projectName_eq_of_qualifiedName haslash hb hbproject heq
        exact absurd (hcount hsame) (by omega)
    · split at heq
      · rename_i hbfew
        have hsame := lower_projectName_eq_of_qualifiedName hbslash ha haproject heq.symm
        have htwo := hcount hsame.symm
        rw [← hsame] at htwo
        omega
      · exact heq
  · intro heq
    -- paths that agree end with names that agree, so both names are replaced
    have hsame := lower_projectName_eq ha hb haproject hbproject heq
    obtain ⟨haname, hbname⟩ := displayName_eq_qualifiedName settings root h hsame
    rw [haname, hbname, heq]

/-- Two projects are listed under one name exactly if their paths below the root are one. -/
theorem displayName_eq_iff {a b : Path}
    (h : [a, b].Sublist (detect system settings root candidates)) :
    displayName settings root (detect system settings root candidates) a =
        displayName settings root (detect system settings root candidates) b ↔
      qualifiedName root a = qualifiedName root b := by
  obtain ⟨hacandidate, haproject⟩ := mem_detect.1 (h.subset List.mem_cons_self)
  obtain ⟨hbcandidate, hbproject⟩ := mem_detect.1 (h.subset (by simp : b ∈ [a, b]))
  obtain ⟨here, ha⟩ := hreached a hacandidate
  obtain ⟨there, hb⟩ := hreached b hbcandidate
  -- in either case the paths agree in lower case, so both projects are listed by their paths
  constructor
  · intro heq
    have hlower := (lower_displayName_eq_iff hreached h).1 (congrArg lower heq)
    have hsame := lower_projectName_eq ha hb haproject hbproject hlower
    obtain ⟨haname, hbname⟩ := displayName_eq_qualifiedName settings root h hsame
    rw [haname, hbname] at heq
    exact heq
  · intro heq
    have hsame := lower_projectName_eq ha hb haproject hbproject (congrArg lower heq)
    obtain ⟨haname, hbname⟩ := displayName_eq_qualifiedName settings root h hsame
    rw [haname, hbname, heq]

/-- Projects whose paths below the root differ are listed under different names. -/
theorem nodup_displayNames
    (h : ((detect system settings root candidates).map (qualifiedName root)).Nodup) :
    (displayNames settings root (detect system settings root candidates)).Nodup := by
  rw [displayNames_eq_map]
  rw [List.Nodup, List.pairwise_map, List.pairwise_iff_forall_sublist] at h ⊢
  exact fun {a b} hsublist heq => h hsublist ((displayName_eq_iff hreached hsublist).1 heq)

/-- The names under which projects are listed are unique ignoring case exactly if their paths below
the root are. -/
theorem nodup_lower_displayNames_iff :
    ((displayNames settings root (detect system settings root candidates)).map lower).Nodup ↔
      ((detect system settings root candidates).map fun dir =>
        lower (qualifiedName root dir)).Nodup := by
  rw [displayNames_eq_map, List.map_map]
  unfold List.Nodup
  rw [List.pairwise_map, List.pairwise_map, List.pairwise_iff_forall_sublist,
    List.pairwise_iff_forall_sublist]
  constructor
  · intro hall a b hsublist heq
    exact hall hsublist ((lower_displayName_eq_iff hreached hsublist).2 heq)
  · intro hall a b hsublist heq
    exact hall hsublist ((lower_displayName_eq_iff hreached hsublist).1 heq)

end Uniqueness

/-- A workspace with projects of one name: two of them side by side, with names that differ in case
only, and one in another directory. -/
def namesakes : FileSystem :=
  let project : Entry := .directory [("package.json", .file "\x7b\x7d".toUTF8)]
  let clients : Entry := .directory [("API", project), ("api", project)]
  let services : Entry := .directory [("api", project)]
  ⟨.directory [("ws", .directory [("clients", clients), ("services", services)])], []⟩

/-- Projects of one name in different directories are listed under different names. -/
theorem nodup_lower_displayNames_apart :
    (∀ dir ∈ [(⟨"/ws/clients/api"⟩ : Path), ⟨"/ws/services/api"⟩],
      ∃ names, IsReachedBy ⟨"/ws"⟩ dir names) ∧
    ((displayNames {} ⟨"/ws"⟩ (detect namesakes {} ⟨"/ws"⟩
      [⟨"/ws/clients/api"⟩, ⟨"/ws/services/api"⟩])).map lower).Nodup := by
  have hreached : ∀ dir ∈ [(⟨"/ws/clients/api"⟩ : Path), ⟨"/ws/services/api"⟩],
      ∃ names, IsReachedBy ⟨"/ws"⟩ dir names := by
    rw [List.forall_mem_cons, List.forall_mem_singleton]
    exact ⟨⟨["clients", "api"], by unfold IsReachedBy; decide +kernel⟩,
      ⟨["services", "api"], by unfold IsReachedBy; decide +kernel⟩⟩
  exact ⟨hreached, (nodup_lower_displayNames_iff hreached).2 (by decide +kernel)⟩

/-- Side by side they are listed under names that differ in case only. -/
theorem not_nodup_lower_displayNames_siblings :
    detect namesakes {} ⟨"/ws"⟩ [⟨"/ws/clients/API"⟩, ⟨"/ws/clients/api"⟩] =
        [⟨"/ws/clients/API"⟩, ⟨"/ws/clients/api"⟩] ∧
      ¬ ((displayNames {} ⟨"/ws"⟩ [⟨"/ws/clients/API"⟩, ⟨"/ws/clients/api"⟩]).map lower).Nodup := by
  decide +kernel

end CodeSurvey.Detection
