import CodeSurvey.Proofs.BlockShape
import CodeSurvey.Proofs.ReportNames
import CodeSurvey.Proofs.SourceFiles

/-!
# What a project says of its files

A project is put together file by file, and several of its parts say the same: variables stand in a
set of all and in the sets of their scopes, methods in a set and as details. This file says that
these parts agree with each other and with what was read from the files.

## Key results

- `ProjectDraft.addMentions_eq_eraseDups`: mentions are first occurrences
- `Scanner.part_scanProject`: a part of a project, put together from its parsed files
- `Scanner.summarizes_of_scanWith`: the projects of a report say what was read from their files
-/

namespace CodeSurvey

/-! ## Putting a project together -/

namespace NameSet

/-- The names that are added step by step. -/
theorem mem_foldl_addAll {α : Type} (names : α → List String) (set : NameSet) (l : List α)
    (name : String) :
    name ∈ l.foldl (fun set a => set.addAll (names a)) set ↔
      name ∈ set ∨ ∃ a ∈ l, name ∈ names a := by
  induction l generalizing set with
  | nil => simp
  | cons a rest ih =>
    rw [List.foldl_cons, ih, mem_addAll]
    simp [or_assoc]

end NameSet

namespace ProjectDraft

/-- What is added to the set of a scope are the names of the variables in that scope. -/
theorem get_addVariables (sets : VariablesByScope) (declarations : List ScopedVariable)
    (scope : Scope) :
    (addVariables sets declarations).get scope =
      (sets.get scope).addAll (namesIn scope declarations) := by
  cases scope <;> rfl

theorem mem_namesIn {scope : Scope} {declarations : List ScopedVariable} {name : String} :
    name ∈ namesIn scope declarations ↔
      ∃ declaration ∈ declarations, declaration.scope = scope ∧ declaration.name = name := by
  simp [namesIn, and_assoc]

/-- Mentions are the first occurrences of import targets. -/
theorem addMentions_eq_eraseDups (targets others : List String) :
    addMentions targets.eraseDups others = (targets ++ others).eraseDups := by
  induction others generalizing targets with
  | nil => rw [List.append_nil]; rfl
  | cons target rest ih =>
    have hstep : addMentions targets.eraseDups (target :: rest) =
        addMentions (targets ++ [target]).eraseDups rest := by
      show addMentions (if targets.eraseDups.contains target then targets.eraseDups
        else targets.eraseDups ++ [target]) rest = _
      by_cases hmem : target ∈ targets
      · have hknown : targets.eraseDups.contains target = true := by simpa using hmem
        rw [if_pos hknown, List.eraseDups_concat_of_mem hmem]
      · have hnew : ¬ targets.eraseDups.contains target = true := by simpa using hmem
        rw [if_neg hnew, List.eraseDups_concat_of_not_mem hmem]
    rw [hstep, ih, List.append_assoc, List.singleton_append]

theorem foldl_addMentions {α : Type} (targets : α → List String) (known : List String)
    (l : List α) :
    l.foldl (fun mentions a => addMentions mentions (targets a)) known.eraseDups =
      (known ++ l.flatMap targets).eraseDups := by
  induction l generalizing known with
  | nil => simp
  | cons a rest ih =>
    rw [List.foldl_cons, addMentions_eq_eraseDups, ih, List.flatMap_cons, List.append_assoc]

/-- A part of a project that only parsed files change comes from them alone. -/
theorem part_foldl_addRecord {α : Type} {part : Project → α} {absorb : α → ParsedFile → α}
    (htechnologies : ∀ project technologies,
      part { project with technologies } = part project)
    (habsorb : ∀ project parsed, part (absorbParsed project parsed) = absorb (part project) parsed)
    (draft : ProjectDraft) (records : List FileRecord) :
    part (records.foldl addRecord draft).project =
      (records.filterMap FileRecord.parsed).foldl absorb (part draft.project) := by
  induction records generalizing draft with
  | nil => rfl
  | cons record rest ih =>
    have hstep : part (draft.addRecord record).project =
        record.parsed.elim (part draft.project) (absorb (part draft.project)) := by
      unfold addRecord
      cases record.parsed with
      | none => exact htechnologies _ _
      | some parsed =>
        show part (absorbParsed _ parsed) = _
        rw [habsorb]
        exact congrArg (absorb · parsed) (htechnologies _ _)
    rw [List.foldl_cons, ih, hstep, List.filterMap_cons]
    cases record.parsed <;> rfl

end ProjectDraft

namespace Scanner

variable (scanner : Scanner)

section Parts

variable (detected : Detected)

/-- A part of a project that only parsed files change is put together from the parsed files, in walk
order. -/
theorem part_scanProject {α : Type} (part : Project → α) (absorb : α → ParsedFile → α)
    (hkeeps : ∀ (project : Project) technologies hasUncommittedChanges,
      part { project with technologies, hasUncommittedChanges } = part project)
    (habsorb : ∀ project parsed,
      part (ProjectDraft.absorbParsed project parsed) = absorb (part project) parsed) :
    part (scanner.scanProject .idle detected).project =
      (scanner.parsedFiles detected).foldl absorb (part (emptyDraft detected).project) := by
  rw [project_scanProject, hkeeps, recordedDraft]
  exact ProjectDraft.part_foldl_addRecord (fun project technologies =>
    hkeeps project technologies project.hasUncommittedChanges) habsorb _ _

/-- The names in a set of a project to which each parsed file adds some. -/
theorem mem_set_scanProject (set : Project → NameSet) (names : ParsedFile → List String)
    (hkeeps : ∀ (project : Project) technologies hasUncommittedChanges,
      set { project with technologies, hasUncommittedChanges } = set project)
    (habsorb : ∀ project parsed,
      set (ProjectDraft.absorbParsed project parsed) = (set project).addAll (names parsed))
    (hempty : set (emptyDraft detected).project = .empty) (name : String) :
    name ∈ set (scanner.scanProject .idle detected).project ↔
      ∃ parsed ∈ scanner.parsedFiles detected, name ∈ names parsed := by
  rw [scanner.part_scanProject detected set (fun set parsed => set.addAll (names parsed))
    hkeeps habsorb, hempty, NameSet.mem_foldl_addAll]
  simp

/-- The mentions of a project are the first occurrences of what its files import. -/
theorem mentions_scanProject :
    (scanner.scanProject .idle detected).project.mentions =
      ((scanner.parsedFiles detected).flatMap ParsedFile.references).eraseDups := by
  rw [scanner.part_scanProject detected Project.mentions
    (fun mentions parsed => ProjectDraft.addMentions mentions parsed.references)
    (fun _ _ _ => rfl) fun _ _ => rfl]
  exact ProjectDraft.foldl_addMentions ParsedFile.references [] _

/-- What was read from a file of a project. -/
theorem exists_text_of_mem_parsedFiles {parsed : ParsedFile}
    (h : parsed ∈ scanner.parsedFiles detected) : ∃ path text,
      parsed = ParsedFile.ofExtraction (detected.root.relativeText path) path
        (Extraction.ofText scanner.settings.scan.blockTextLimit text) := by
  rw [parsedFiles_eq_filterMap] at h
  obtain ⟨path, -, hparsed⟩ := List.mem_filterMap.1 h
  obtain ⟨text, -, rfl⟩ := Option.map_eq_some_iff.1 hparsed
  exact ⟨path, text, rfl⟩

/-- The path from a project to a file tells the file apart from all others of a walk. -/
theorem nodup_map_relativeText (hformed : scanner.system.root.WellFormed) (root : Path) :
    ((scanner.walk root).files.map root.relativeText).Nodup := by
  apply List.Nodup.map_on _ (FileSystem.nodup_files hformed root _ _)
  intro file hfile other hother heq
  obtain ⟨names, hfront, rfl⟩ := FileSystem.exists_plain_of_mem_files hformed hfile
  obtain ⟨others, hback, rfl⟩ := FileSystem.exists_plain_of_mem_files hformed hother
  rw [Path.relativeText_joinAll root hfront, Path.relativeText_joinAll root hback] at heq
  rw [Path.intercalate_inj hfront hback heq]

end Parts

/-- A project of a report says of its files, which are the source files of a walk, what was read
from them. -/
structure Summarizes (project : Project) (detected : Detected) : Prop where
  rootPath : project.rootPath = detected.root
  parsedFiles : project.files = (scanner.parsedFiles detected).map ParsedFile.summary
  /-- Files come in walk order, with their paths from the project. -/
  files : project.files.map (fun file => (file.relativePath, file.absolutePath)) =
    ((scanner.walk detected.root).files.filter
      (Analysis.isSource scanner.system scanner.settings.scan)).map
        fun path => (detected.root.relativeText path, path)
  nodup_files : (project.files.map FileSummary.relativePath).Nodup
  variables_scopes : ∀ name, name ∈ project.variableNames ↔
    ∃ scope, name ∈ project.variablesByScope.get scope
  variables_files : ∀ name, name ∈ project.variableNames ↔
    ∃ file ∈ project.files, name ∈ file.variableNames
  functions : ∀ name, name ∈ project.functions ↔ ∃ file ∈ project.files, name ∈ file.functions
  classes : ∀ name, name ∈ project.classes ↔ ∃ file ∈ project.files, name ∈ file.classes
  methods : ∀ name, name ∈ project.methods ↔ ∃ file ∈ project.files, name ∈ file.methods
  methods_details : ∀ name, name ∈ project.methods ↔
    ∃ detail ∈ project.identifierDetails, detail.kind = .method ∧ detail.name = name
  details : ∀ detail ∈ project.identifierDetails,
    detail.file ∈ project.files.map FileSummary.relativePath
  mem_mentions : ∀ mention, mention ∈ project.mentions ↔
    ∃ parsed ∈ scanner.parsedFiles detected, mention ∈ parsed.references
  /-- Mentions come in the order in which the files import them first. -/
  mentions_order : project.mentions.Pairwise fun a b =>
    ((scanner.parsedFiles detected).flatMap ParsedFile.references).idxOf a <
      ((scanner.parsedFiles detected).flatMap ParsedFile.references).idxOf b
  nodup_mentions : project.mentions.Nodup

/-- Resolution only adds references. -/
theorem Summarizes.resolveProject {scanner : Scanner} {project : Project} {detected : Detected}
    (h : scanner.Summarizes project detected) (known : List Resolution.KnownName) :
    scanner.Summarizes (Resolution.resolveProject known project) detected :=
  { h with }

section Parts

variable (detected : Detected)

/-- A file lists the variables whose declarations were read from it. -/
theorem variableNames_of_mem_parsedFiles {parsed : ParsedFile}
    (h : parsed ∈ scanner.parsedFiles detected) :
    parsed.summary.variableNames = parsed.declarations.map ScopedVariable.name := by
  obtain ⟨path, text, rfl⟩ := scanner.exists_text_of_mem_parsedFiles detected h
  rfl

/-- A file lists the methods among the blocks that were read from it. -/
theorem mem_methods_of_mem_parsedFiles {parsed : ParsedFile}
    (h : parsed ∈ scanner.parsedFiles detected) (name : String) :
    name ∈ parsed.summary.methods ↔
      ∃ detail ∈ parsed.identifiers, detail.kind = .method ∧ detail.name = name := by
  obtain ⟨path, text, rfl⟩ := scanner.exists_text_of_mem_parsedFiles detected h
  apply (Extraction.mem_methods_iff scanner.settings.scan.blockTextLimit text name).trans
  constructor
  · rintro ⟨block, hblock, hkind⟩
    exact ⟨block.detail (detected.root.relativeText path), List.mem_map_of_mem hblock, hkind⟩
  · rintro ⟨detail, hdetail, hkind⟩
    obtain ⟨block, hblock, rfl⟩ := List.mem_map.1 hdetail
    exact ⟨block, hblock, hkind⟩

/-- The details of a file name the file. -/
theorem file_of_mem_identifiers {parsed : ParsedFile} (h : parsed ∈ scanner.parsedFiles detected)
    {detail : IdentifierDetail} (hdetail : detail ∈ parsed.identifiers) :
    detail.file = parsed.summary.relativePath := by
  obtain ⟨path, text, rfl⟩ := scanner.exists_text_of_mem_parsedFiles detected h
  obtain ⟨block, -, rfl⟩ := List.mem_map.1 hdetail
  rfl

/-- The names of the variables of a project, from the declarations in its files. -/
theorem mem_variableNames_scanProject (name : String) :
    name ∈ (scanner.scanProject .idle detected).project.variableNames ↔
      ∃ parsed ∈ scanner.parsedFiles detected, ∃ declaration ∈ parsed.declarations,
        declaration.name = name := by
  rw [scanner.mem_set_scanProject detected Project.variableNames
    (fun parsed => parsed.summary.variableNames) (fun _ _ _ => rfl) (fun _ _ => rfl) rfl]
  apply exists_congr
  intro parsed
  apply and_congr_right
  intro hparsed
  rw [scanner.variableNames_of_mem_parsedFiles detected hparsed, List.mem_map]

/-- The names in the scopes of a project, from the declarations in its files. -/
theorem mem_variablesByScope_scanProject (scope : Scope) (name : String) :
    name ∈ (scanner.scanProject .idle detected).project.variablesByScope.get scope ↔
      ∃ parsed ∈ scanner.parsedFiles detected, ∃ declaration ∈ parsed.declarations,
        declaration.scope = scope ∧ declaration.name = name := by
  have hempty : (emptyDraft detected).project.variablesByScope.get scope = .empty := by
    cases scope <;> rfl
  rw [scanner.mem_set_scanProject detected
    (fun project => project.variablesByScope.get scope)
    (fun parsed => ProjectDraft.namesIn scope parsed.declarations) (fun _ _ _ => rfl)
    (fun project parsed => ProjectDraft.get_addVariables _ _ scope) hempty]
  simp only [ProjectDraft.mem_namesIn]

/-- Files come in walk order, with their paths from the project. -/
theorem map_paths_files_scanProject :
    (scanner.scanProject .idle detected).project.files.map
        (fun file => (file.relativePath, file.absolutePath)) =
      ((scanner.walk detected.root).files.filter
        (Analysis.isSource scanner.system scanner.settings.scan)).map
          fun path => (detected.root.relativeText path, path) := by
  rw [files_eq_map_parsedFiles, ← map_absolutePath_parsedFiles, List.map_map, List.map_map]
  apply List.map_congr_left
  intro parsed hparsed
  obtain ⟨path, text, rfl⟩ := scanner.exists_text_of_mem_parsedFiles detected hparsed
  rfl

/-- No path from a project comes twice among its files. -/
theorem nodup_files_scanProject (hformed : scanner.system.root.WellFormed) :
    ((scanner.scanProject .idle detected).project.files.map FileSummary.relativePath).Nodup := by
  have hrelative := congrArg (List.map Prod.fst) (scanner.map_paths_files_scanProject detected)
  rw [List.map_map, List.map_map] at hrelative
  have hsource : ((scanner.walk detected.root).files.filter
      (Analysis.isSource scanner.system scanner.settings.scan)).Sublist _ := List.filter_sublist
  have hnodup := (scanner.nodup_map_relativeText hformed detected.root).sublist
    (hsource.map detected.root.relativeText)
  exact hrelative ▸ hnodup

/-- A set to which each parsed file adds the names of a list in its summary holds the names in these
lists. -/
theorem mem_set_iff_exists_file (set : Project → NameSet) (names : FileSummary → List String)
    (hkeeps : ∀ (project : Project) technologies hasUncommittedChanges,
      set { project with technologies, hasUncommittedChanges } = set project)
    (habsorb : ∀ project parsed,
      set (ProjectDraft.absorbParsed project parsed) =
        (set project).addAll (names parsed.summary))
    (hempty : set (emptyDraft detected).project = .empty) (name : String) :
    name ∈ set (scanner.scanProject .idle detected).project ↔
      ∃ file ∈ (scanner.scanProject .idle detected).project.files, name ∈ names file := by
  rw [scanner.mem_set_scanProject detected set (fun parsed => names parsed.summary) hkeeps habsorb
    hempty, files_eq_map_parsedFiles]
  simp only [List.mem_map, exists_exists_and_eq_and]

/-- The variables of a project are those of its scopes. -/
theorem mem_variableNames_iff_exists_scope (name : String) :
    name ∈ (scanner.scanProject .idle detected).project.variableNames ↔
      ∃ scope, name ∈ (scanner.scanProject .idle detected).project.variablesByScope.get scope := by
  rw [mem_variableNames_scanProject]
  simp only [mem_variablesByScope_scanProject]
  constructor
  · rintro ⟨parsed, hparsed, declaration, hdeclaration, hname⟩
    exact ⟨declaration.scope, parsed, hparsed, declaration, hdeclaration, rfl, hname⟩
  · rintro ⟨scope, parsed, hparsed, declaration, hdeclaration, -, hname⟩
    exact ⟨parsed, hparsed, declaration, hdeclaration, hname⟩

/-- The methods of a project are those among its blocks. -/
theorem mem_methods_iff_exists_detail (name : String) :
    name ∈ (scanner.scanProject .idle detected).project.methods ↔
      ∃ detail ∈ (scanner.scanProject .idle detected).project.identifierDetails,
        detail.kind = .method ∧ detail.name = name := by
  rw [scanner.mem_set_scanProject detected Project.methods (fun parsed => parsed.summary.methods)
    (fun _ _ _ => rfl) (fun _ _ => rfl) rfl, identifierDetails_eq_flatMap_parsedFiles]
  constructor
  · rintro ⟨parsed, hparsed, hname⟩
    obtain ⟨detail, hdetail, hkind⟩ :=
      (scanner.mem_methods_of_mem_parsedFiles detected hparsed name).1 hname
    exact ⟨detail, List.mem_flatMap.2 ⟨parsed, hparsed, hdetail⟩, hkind⟩
  · rintro ⟨detail, hdetail, hkind⟩
    obtain ⟨parsed, hparsed, hdetail⟩ := List.mem_flatMap.1 hdetail
    exact ⟨parsed, hparsed,
      (scanner.mem_methods_of_mem_parsedFiles detected hparsed name).2 ⟨detail, hdetail, hkind⟩⟩

/-- The blocks of a project name files of it. -/
theorem file_mem_of_mem_identifierDetails {detail : IdentifierDetail}
    (h : detail ∈ (scanner.scanProject .idle detected).project.identifierDetails) :
    detail.file ∈
      (scanner.scanProject .idle detected).project.files.map FileSummary.relativePath := by
  rw [identifierDetails_eq_flatMap_parsedFiles] at h
  obtain ⟨parsed, hparsed, hdetail⟩ := List.mem_flatMap.1 h
  rw [scanner.file_of_mem_identifiers detected hparsed hdetail, files_eq_map_parsedFiles,
    List.map_map]
  exact List.mem_map_of_mem hparsed

/-- A project that has been looked at says what was read from its files. -/
theorem summarizes_scanProject (hformed : scanner.system.root.WellFormed) :
    scanner.Summarizes (scanner.scanProject .idle detected).project detected := by
  have hset := scanner.mem_set_iff_exists_file detected
  have hmentions := scanner.mentions_scanProject detected
  exact {
    rootPath := scanner.rootPath_scanProject detected
    parsedFiles := scanner.files_eq_map_parsedFiles detected
    files := scanner.map_paths_files_scanProject detected
    nodup_files := scanner.nodup_files_scanProject detected hformed
    variables_scopes := scanner.mem_variableNames_iff_exists_scope detected
    variables_files := hset Project.variableNames _ (fun _ _ _ => rfl) (fun _ _ => rfl) rfl
    functions := hset Project.functions _ (fun _ _ _ => rfl) (fun _ _ => rfl) rfl
    classes := hset Project.classes _ (fun _ _ _ => rfl) (fun _ _ => rfl) rfl
    methods := hset Project.methods _ (fun _ _ _ => rfl) (fun _ _ => rfl) rfl
    methods_details := scanner.mem_methods_iff_exists_detail detected
    details := fun _ hdetail => scanner.file_mem_of_mem_identifierDetails detected hdetail
    mem_mentions := fun _ => by rw [hmentions, List.mem_eraseDups, List.mem_flatMap]
    mentions_order := hmentions ▸ List.pairwise_idxOf_eraseDups _
    nodup_mentions := hmentions ▸ List.nodup_eraseDups _ }

end Parts

end Scanner

end CodeSurvey
