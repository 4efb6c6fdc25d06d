import Mathlib.Data.List.Perm.Subperm
import CodeSurvey.Proofs.Cancellation
import CodeSurvey.Proofs.ReferenceResolution
import CodeSurvey.Proofs.RelationshipEdges
import CodeSurvey.Proofs.RootIndependence
import CodeSurvey.Proofs.SharingCorrect

/-!
# Names in a report

Comparisons tell projects apart by their positions, reports by their names. As no two projects are
listed under one name, nothing is lost: every name in a report is that of one project, and what
lies in two projects is listed under two names.

## Key results

- `Scanner.nodup_map_name_detected`: projects are listed under different names
- `Sharing.two_le_size_of_namesOwners`: what lies in two projects is listed under two names
- `Resolution.mem_references`: references are the names of other projects
- `Scanner.namesProjects_of_scanWith`: the names in a report stand for one project each
-/

namespace CodeSurvey

/-! ## Sets of names -/

namespace NameSet

theorem two_le_size {set : NameSet} {a b : String} (ha : a ∈ set) (hb : b ∈ set) (h : a ≠ b) :
    2 ≤ set.size := by
  have hsublist : [a, b].Subperm set.toList :=
    List.Nodup.subperm (by simpa using h) (by simpa using ⟨ha, hb⟩)
  exact hsublist.length_le

/-- Different names are all counted. -/
theorem size_ofList_of_nodup {names : List String} (h : names.Nodup) :
    (ofList names).size = names.length := by
  have hperm : (ofList names).toList.Perm names :=
    (List.perm_ext_iff_of_nodup (ofList names).nodup_toList h).2 fun _ => mem_ofList
  exact hperm.length_eq

end NameSet

/-! ## References -/

namespace Resolution

/-- References are names of projects, other than the one that makes them. -/
theorem mem_references {names mentions : List String} {own name : String}
    (h : name ∈ references (knownNames names) (Text.lower own) mentions) :
    name ∈ names ∧ name ≠ own := by
  obtain ⟨hreferable, -⟩ := (mem_references_iff names own mentions name).1 h
  exact ⟨hreferable.first.mem, fun heq => hreferable.foreign (by rw [heq])⟩

end Resolution

/-! ## Shared identifiers -/

namespace Sharing

variable {projects : List Project} {p : Occurrence → Prop} {names : NameSet}

/-- An occurrence lies in one of the projects. -/
theorem exists_project_of_mem_occurrences {occurrence : Occurrence}
    (h : occurrence ∈ occurrences projects) :
    ∃ project, projects[occurrence.project]? = some project := by
  obtain ⟨⟨project, index⟩, hproject, hdetail⟩ := List.mem_flatMap.1 h
  obtain ⟨detail, -, rfl⟩ := List.mem_map.1 hdetail
  exact ⟨project, List.mem_zipIdx_iff_getElem?.1 hproject⟩

/-- The owners of occurrences are projects. -/
theorem exists_project_of_namesOwners (h : NamesOwners projects p names) {name : String}
    (hname : name ∈ names) : ∃ project ∈ projects, project.name = name := by
  obtain ⟨occurrence, -, -, hproject⟩ := (h name).1 hname
  obtain ⟨project, hposition, rfl⟩ := Option.map_eq_some_iff.1 hproject
  exact ⟨project, List.mem_of_getElem? hposition, rfl⟩

/-- What lies in two projects is listed under two names. -/
theorem two_le_size_of_namesOwners (hnodup : (projects.map Project.name).Nodup)
    (h : NamesOwners projects p names) (hspread : IsSpread (occurrences projects) p) :
    2 ≤ names.size := by
  obtain ⟨a, ha, b, hb, hpa, hpb, hne⟩ := hspread
  obtain ⟨first, hfirst⟩ := exists_project_of_mem_occurrences ha
  obtain ⟨second, hsecond⟩ := exists_project_of_mem_occurrences hb
  have hfirstName : first.name ∈ names := (h _).2 ⟨a, ha, hpa, by rw [hfirst]; rfl⟩
  have hsecondName : second.name ∈ names := (h _).2 ⟨b, hb, hpb, by rw [hsecond]; rfl⟩
  -- one name would mean one position
  exact NameSet.two_le_size hfirstName hsecondName fun heq =>
    hne (List.position_eq_of_nodup_map hnodup hfirst hsecond heq)

/-- Shared identifiers are listed with the names of at least two projects. -/
theorem identifiers_name_projects (hnodup : (projects.map Project.name).Nodup)
    {entry : SharedIdentifier} (h : entry ∈ identifiers projects) :
    2 ≤ entry.projects.size ∧
      ∀ name ∈ entry.projects, ∃ project ∈ projects, project.name = name := by
  have hdeclarers := (describes_of_mem_identifiers h).declarers
  have hspread := (exists_mem_identifiers_iff projects entry.name entry.kind).1 ⟨entry, h, rfl, rfl⟩
  exact ⟨two_le_size_of_namesOwners hnodup hdeclarers hspread, fun name hname =>
    exists_project_of_namesOwners hdeclarers hname⟩

/-- Who shares the text of an identifier is listed with it. -/
theorem overlaps_name_projects (hnodup : (projects.map Project.name).Nodup)
    {entry : SharedIdentifier} (h : entry ∈ identifiers projects) {group : NameSet}
    (hgroup : group ∈ entry.hardOverlapGroups) :
    2 ≤ group.size ∧ ∀ name ∈ group, name ∈ entry.projects := by
  obtain ⟨hdeclarers, -, bodies, -, hbodies, hgroups⟩ := describes_of_mem_identifiers h
  obtain ⟨body, hbody, howners⟩ := List.exists_of_mem_of_forall₂ hgroups hgroup
  refine ⟨two_le_size_of_namesOwners hnodup howners ((hbodies body).1 hbody), fun name hname => ?_⟩
  -- who shares a text declares the identifier
  obtain ⟨occurrence, hmem, ⟨hkey, -⟩, hname⟩ := (howners name).1 hname
  exact (hdeclarers name).2 ⟨occurrence, hmem, hkey, hname⟩

end Sharing

/-! ## Reports -/

namespace Report

/-- A project of the report has this name. -/
def Lists (report : Report) (name : String) : Prop :=
  ∃ project ∈ report.projects, project.name = name

/-- The names in a report stand for one project each. -/
structure NamesProjects (report : Report) : Prop where
  nodup : (report.projects.map Project.name).Nodup
  references : ∀ project ∈ report.projects, ∀ name ∈ project.references,
    report.Lists name ∧ name ≠ project.name
  duplicates : ∀ entry ∈ report.duplicates,
    2 ≤ entry.projects.size ∧ ∀ name ∈ entry.projects, report.Lists name
  sharedIdentifiers : ∀ entry ∈ report.sharedIdentifiers,
    2 ≤ entry.projects.size ∧ ∀ name ∈ entry.projects, report.Lists name
  overlaps : ∀ entry ∈ report.sharedIdentifiers, ∀ group ∈ entry.hardOverlapGroups,
    2 ≤ group.size ∧ ∀ name ∈ group, name ∈ entry.projects
  edges : ∀ edge ∈ report.edges, report.Lists edge.source ∧ report.Lists edge.target
  joined : ∀ entry ∈ report.duplicates, ∃ edge ∈ report.edges, edge.kind = .duplicate ∧
    edge.source ∈ entry.projects ∧ edge.target ∈ entry.projects
  size_projectNames : report.projectNames.size = report.projects.length

variable {report : Report}

/-- The ends of edges are projects if references and the names in duplicates are. -/
theorem lists_ends_of_mem_edges
    (hreferences : ∀ project ∈ report.projects, ∀ name ∈ project.references, report.Lists name)
    (hduplicates : ∀ entry ∈ report.duplicates, ∀ name ∈ entry.projects, report.Lists name)
    {edge : Edge} (h : edge ∈ report.edges) :
    report.Lists edge.source ∧ report.Lists edge.target := by
  rcases ends_of_mem_edges h with ⟨entry, hentry, hsource, htarget⟩ |
    ⟨project, hproject, hsource, htarget⟩
  · exact ⟨hduplicates entry hentry _ hsource, hduplicates entry hentry _ htarget⟩
  · have hlists : ∀ name, name = project.name ∨ name ∈ project.references → report.Lists name :=
      fun name hname => hname.elim (fun heq => ⟨project, hproject, heq.symm⟩)
        (hreferences project hproject name)
    exact ⟨hlists _ hsource, hlists _ htarget⟩

/-- The names in a report stand for one project each if the names of projects differ and those in
references and duplicates are among them. -/
theorem namesProjects_of_lists (hnodup : (report.projects.map Project.name).Nodup)
    (hreferences : ∀ project ∈ report.projects, ∀ name ∈ project.references,
      report.Lists name ∧ name ≠ project.name)
    (hduplicates : ∀ entry ∈ report.duplicates,
      2 ≤ entry.projects.size ∧ ∀ name ∈ entry.projects, report.Lists name)
    (hshared : report.sharedIdentifiers = Sharing.identifiers report.projects) :
    report.NamesProjects where
  nodup := hnodup
  references := hreferences
  duplicates := hduplicates
  sharedIdentifiers := fun entry hentry =>
    Sharing.identifiers_name_projects hnodup (hshared ▸ hentry)
  overlaps := fun entry hentry group hgroup =>
    Sharing.overlaps_name_projects hnodup (hshared ▸ hentry) hgroup
  edges := fun edge hedge => lists_ends_of_mem_edges
    (fun project hproject name hname => (hreferences project hproject name hname).1)
    (fun entry hentry => (hduplicates entry hentry).2) hedge
  joined := fun entry hentry => exists_edge_of_mem_duplicates hentry (hduplicates entry hentry).1
  size_projectNames := by
    rw [projectNames, NameSet.size_ofList_of_nodup hnodup, List.length_map]

end Report

namespace Scanner

variable (scanner : Scanner)

/-! ## Names of detected projects -/

/-- Projects have the names under which they are listed. -/
theorem map_name_detected :
    scanner.detected.map Detected.name =
      Detection.displayNames scanner.settings.scan scanner.root
        (scanner.detected.map Detected.root) := by
  have hname : Detected.name ∘ (fun entry : (Path × String) × Nat =>
      (⟨entry.2, entry.1.1, entry.1.2⟩ : Detected)) = Prod.snd ∘ Prod.fst := rfl
  rw [map_root_detected, detected]
  simp only [List.map_map, hname]
  rw [← List.map_map, List.zipIdx_map_fst, List.map_snd_zip (by simp)]

/-- The directories of a walk are reached by different plain names. -/
theorem nodup_dirNames (hformed : scanner.system.root.WellFormed) :
    scanner.dirNames.Nodup ∧ ∀ names ∈ scanner.dirNames, ∀ name ∈ names, IsPlainName name := by
  obtain ⟨hascending, hplain⟩ := FileSystem.pairwise_dirNames hformed scanner.root
    scanner.settings.scan.ignoreSet scanner.settings.scan.followLinks
  refine ⟨hascending.imp fun {_ b} hlt heq => ?_, hplain⟩
  exact List.lt_irrefl b (heq ▸ hlt)

/-- No two projects have one name. -/
theorem nodup_map_name_detected (hformed : scanner.system.root.WellFormed) :
    (scanner.detected.map Detected.name).Nodup := by
  obtain ⟨hnodup, hplain⟩ := scanner.nodup_dirNames hformed
  rw [map_name_detected, map_root_detected, dirs_walk]
  have hreached : ∀ dir ∈ scanner.dirNames.map scanner.root.joinAll,
      ∃ names, Detection.IsReachedBy scanner.root dir names := by
    intro dir hdir
    obtain ⟨names, hnames, rfl⟩ := List.mem_map.1 hdir
    exact ⟨names, Detection.isReachedBy_joinAll (hplain names hnames)⟩
  refine Detection.nodup_displayNames hreached (List.Nodup.sublist
    (List.filter_sublist.map _) ?_)
  rw [List.map_map]
  refine List.Nodup.map_on (fun names hnames others hothers heq => ?_) hnodup
  rw [Function.comp_apply, Function.comp_apply,
    Detection.qualifiedName_eq (Detection.isReachedBy_joinAll (hplain names hnames)),
    Detection.qualifiedName_eq (Detection.isReachedBy_joinAll (hplain others hothers))] at heq
  exact Path.intercalate_inj (hplain names hnames) (hplain others hothers) heq

/-- A name belongs to one project. -/
theorem eq_of_name_eq (hformed : scanner.system.root.WellFormed) {a b : Detected}
    (ha : a ∈ scanner.detected) (hb : b ∈ scanner.detected) (h : a.name = b.name) : a = b :=
  List.inj_on_of_nodup_map (scanner.nodup_map_name_detected hformed) ha hb h

/-! ## Names in the report -/

theorem map_name_reportedProjects :
    scanner.reportedProjects.map Project.name = scanner.detected.map Detected.name := by
  rw [reportedProjects_eq_map, List.map_map]
  apply List.map_congr_left
  intro project _
  rw [Function.comp_apply, Resolution.name_resolveProject, name_scanProject]

theorem lists_name_of_mem_detected {project : Detected} (h : project ∈ scanner.detected) :
    scanner.outcome.report.Lists project.name := by
  have hname : project.name ∈ scanner.reportedProjects.map Project.name := by
    rw [map_name_reportedProjects]
    exact List.mem_map_of_mem h
  exact List.mem_map.1 hname

/-- A candidate carries the name and the position of its project. -/
theorem exists_project_of_mem_candidates {candidate : Candidate}
    (h : candidate ∈ scanner.candidates) :
    ∃ project ∈ scanner.detected, candidate.projectIndex = project.index ∧
      candidate.project = project.name := by
  obtain ⟨project, hproject, record, -, rfl⟩ := scanner.exists_record_of_mem_candidates h
  exact ⟨project, hproject, rfl, rfl⟩

/-- What a report says of files held alike comes from candidates of several projects. -/
theorem exists_files_of_mem_duplicates {entry : Duplicate}
    (h : entry ∈ scanner.outcome.report.duplicates) :
    ∃ files : List Candidate, files ⊆ scanner.candidates ∧
      FingerprintIndex.duplicateOf? files = some entry := by
  have hentry : entry ∈ scanner.fingerprints.1.duplicates := h
  rw [fingerprints, FingerprintIndex.duplicates_build] at hentry
  obtain ⟨digest, -, hsome⟩ := List.mem_filterMap.1 hentry
  exact ⟨_, List.filter_subset_self _, hsome⟩

/-- Files held alike are listed with the names of at least two projects. -/
theorem duplicates_name_projects (hformed : scanner.system.root.WellFormed) {entry : Duplicate}
    (h : entry ∈ scanner.outcome.report.duplicates) :
    2 ≤ entry.projects.size ∧ ∀ name ∈ entry.projects, scanner.outcome.report.Lists name := by
  obtain ⟨files, hfiles, hsome⟩ := scanner.exists_files_of_mem_duplicates h
  obtain ⟨hspread, -, hprojects⟩ := FingerprintIndex.duplicateOf?_eq_some hsome
  rw [hprojects]
  constructor
  · -- two positions among the files are those of two projects, which have two names
    have hnot := mt (List.length_eraseDups_lt_two_iff _).2 (Nat.not_lt.2 hspread)
    simp only [List.forall_mem_map, not_forall] at hnot
    obtain ⟨a, ha, b, hb, hne⟩ := hnot
    obtain ⟨first, hfirst, haindex, haname⟩ :=
      scanner.exists_project_of_mem_candidates (hfiles ha)
    obtain ⟨second, hsecond, hbindex, hbname⟩ :=
      scanner.exists_project_of_mem_candidates (hfiles hb)
    refine NameSet.two_le_size (NameSet.mem_ofList.2 (List.mem_map_of_mem ha))
      (NameSet.mem_ofList.2 (List.mem_map_of_mem hb)) fun heq => hne ?_
    rw [haname, hbname] at heq
    rw [haindex, hbindex, scanner.eq_of_name_eq hformed hfirst hsecond heq]
  · intro name hname
    obtain ⟨candidate, hcandidate, rfl⟩ := List.mem_map.1 (NameSet.mem_ofList.1 hname)
    obtain ⟨project, hproject, -, hsame⟩ :=
      scanner.exists_project_of_mem_candidates (hfiles hcandidate)
    rw [hsame]
    exact scanner.lists_name_of_mem_detected hproject

/-- References are names of other projects. -/
theorem references_name_projects {project : Project} (h : project ∈ scanner.reportedProjects)
    {name : String} (hname : name ∈ project.references) :
    scanner.outcome.report.Lists name ∧ name ≠ project.name := by
  obtain ⟨scanned, hscanned, rfl⟩ := List.mem_map.1 h
  obtain ⟨hmem, hne⟩ := Resolution.mem_references hname
  obtain ⟨other, hother, rfl⟩ := List.mem_map.1 hmem
  -- resolution leaves names as they are
  exact ⟨⟨_, List.mem_map_of_mem hother, rfl⟩, hne⟩

/-- The names in the report of a scan that is not cancelled stand for one project each. -/
theorem namesProjects_outcome (hformed : scanner.system.root.WellFormed) :
    scanner.outcome.report.NamesProjects := by
  have hnodup : (scanner.reportedProjects.map Project.name).Nodup := by
    rw [map_name_reportedProjects]
    exact scanner.nodup_map_name_detected hformed
  exact Report.namesProjects_of_lists hnodup
    (fun project hproject name hname => scanner.references_name_projects hproject hname)
    (fun entry hentry => scanner.duplicates_name_projects hformed hentry) rfl

/-- A scan that comes to a result gives that of a scan that is not cancelled. -/
theorem eq_outcome_of_scanWith {token : Token} (hpossible : token.IsPossible)
    {result : ScanResult} (h : scanner.scanWith token = .ok result) :
    result = scanner.outcome := by
  rw [scanner.scanWith_eq hpossible] at h
  rw [scanner.withPool_of_none (scanner.poolFault?_eq_none_of_withPool h)] at h
  split at h
  · exact nomatch h
  · exact (Except.ok.inj h).symm

/-- The names in the report of a scan stand for one project each. -/
theorem namesProjects_of_scanWith (hformed : scanner.system.root.WellFormed) {token : Token}
    (hpossible : token.IsPossible) {result : ScanResult}
    (hscan : scanner.scanWith token = .ok result) : result.report.NamesProjects := by
  rw [scanner.eq_outcome_of_scanWith hpossible hscan]
  exact scanner.namesProjects_outcome hformed

/-- The names in the report on the workspace `nested`. -/
theorem namesProjects_of_scanWith_nested :
    nested.system.root.WellFormed ∧ Token.idle.IsPossible ∧
      nested.scanWith .idle = .ok nested.outcome ∧ nested.outcome.report.NamesProjects :=
  ⟨wellFormed_nested, Token.idle_isPossible, scanWith_nested,
    nested.namesProjects_of_scanWith wellFormed_nested Token.idle_isPossible scanWith_nested⟩

end Scanner

end CodeSurvey
