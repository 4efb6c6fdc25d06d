import CodeSurvey.Proofs.RecordFields
import CodeSurvey.Report.Json

/-!
# Reports that are written are read back

Whatever a report holds, its text in either layout is read as the report again, only without the
details and mentions of its projects, which are not written. Nothing that a report is asked for
depends on these.

## Key results

- `Project.ofJson?_toJson`: a project is read back without its details and mentions
- `Report.ofJson?_toJson`: so are all projects of a report
- `Report.parse?_write_toJson`: a report is read back from its text
-/

namespace CodeSurvey

open Json (exists_record?_ofMembers bind_of_eq_some list?_map list?_map_self text?_ofString
  bool?_bool list?_ofStrings nameSet?_toJson isPrintable_ofString isPrintable_map
  isPrintable_ofStrings isPrintable_nameSet isPrintable_ofMembers)
open Json.Record (require_of_lookup)

/-! ## The parts of a report -/

theorem Strength.ofJson?_toJson (strength : Strength) :
    Strength.ofJson? strength.toJson = some strength := by
  cases strength <;> decide

theorem FileSummary.ofJson?_toJson (file : FileSummary) :
    FileSummary.ofJson? file.toJson = some file := by
  obtain ⟨record, hrecord, hlookup⟩ := exists_record?_ofMembers file.toJson
    ["relativePath", "absolutePath", "variables", "functions", "classes", "methods"]
    rfl rfl (by decide)
  simp only [List.forall_mem_cons] at hlookup
  obtain ⟨hrelativePath, habsolutePath, hvariables, hfunctions, hclasses, hmethods, -⟩ := hlookup
  refine bind_of_eq_some hrecord ?_
  refine bind_of_eq_some (require_of_lookup hrelativePath (text?_ofString _)) ?_
  refine bind_of_eq_some (require_of_lookup habsolutePath (text?_ofString _)) ?_
  refine bind_of_eq_some (require_of_lookup hvariables (list?_ofStrings _)) ?_
  refine bind_of_eq_some (require_of_lookup hfunctions (list?_ofStrings _)) ?_
  refine bind_of_eq_some (require_of_lookup hclasses (list?_ofStrings _)) ?_
  refine bind_of_eq_some (require_of_lookup hmethods (list?_ofStrings _)) ?_
  rfl

theorem VariablesByScope.ofJson?_toJson (sets : VariablesByScope) :
    VariablesByScope.ofJson? sets.toJson = some sets := by
  obtain ⟨record, hrecord, hlookup⟩ := exists_record?_ofMembers sets.toJson
    ["global", "class", "function", "method"] rfl rfl (by decide)
  simp only [List.forall_mem_cons] at hlookup
  obtain ⟨hglobal, hclass, hfunction, hmethod, -⟩ := hlookup
  refine bind_of_eq_some hrecord ?_
  refine bind_of_eq_some (require_of_lookup hglobal (nameSet?_toJson _)) ?_
  refine bind_of_eq_some (require_of_lookup hclass (nameSet?_toJson _)) ?_
  refine bind_of_eq_some (require_of_lookup hfunction (nameSet?_toJson _)) ?_
  refine bind_of_eq_some (require_of_lookup hmethod (nameSet?_toJson _)) ?_
  rfl

/-- A project is read back without its details and mentions. -/
theorem Project.ofJson?_toJson (project : Project) :
    Project.ofJson? project.toJson = some project.forgetSources := by
  obtain ⟨record, hrecord, hlookup⟩ := exists_record?_ofMembers project.toJson
    fieldNames rfl rfl (by decide)
  simp only [List.forall_mem_cons] at hlookup
  obtain ⟨hname, hrootPath, hfiles, htechnologies, hchanges, hvariablesByScope, hvariables,
    hfunctions, hclasses, hmethods, hreferences, hexternalReferences, -⟩ := hlookup
  refine bind_of_eq_some hrecord ?_
  refine bind_of_eq_some (require_of_lookup hname (text?_ofString _)) ?_
  refine bind_of_eq_some (require_of_lookup hrootPath (text?_ofString _)) ?_
  refine bind_of_eq_some (require_of_lookup hfiles (list?_map_self FileSummary.ofJson?_toJson _)) ?_
  refine bind_of_eq_some (require_of_lookup htechnologies (nameSet?_toJson _)) ?_
  refine bind_of_eq_some (require_of_lookup hchanges (bool?_bool _)) ?_
  refine bind_of_eq_some
    (require_of_lookup hvariablesByScope (VariablesByScope.ofJson?_toJson _)) ?_
  refine bind_of_eq_some (require_of_lookup hvariables (nameSet?_toJson _)) ?_
  refine bind_of_eq_some (require_of_lookup hfunctions (nameSet?_toJson _)) ?_
  refine bind_of_eq_some (require_of_lookup hclasses (nameSet?_toJson _)) ?_
  refine bind_of_eq_some (require_of_lookup hmethods (nameSet?_toJson _)) ?_
  refine bind_of_eq_some (require_of_lookup hreferences (list?_ofStrings _)) ?_
  refine bind_of_eq_some (require_of_lookup hexternalReferences (list?_ofStrings _)) ?_
  rfl

theorem Duplicate.ofJson?_toJson (duplicate : Duplicate) :
    Duplicate.ofJson? duplicate.toJson = some duplicate := by
  obtain ⟨record, hrecord, hlookup⟩ := exists_record?_ofMembers duplicate.toJson
    ["projects", "files"] rfl rfl (by decide)
  simp only [List.forall_mem_cons] at hlookup
  obtain ⟨hprojects, hfiles, -⟩ := hlookup
  refine bind_of_eq_some hrecord ?_
  refine bind_of_eq_some (require_of_lookup hprojects (nameSet?_toJson _)) ?_
  refine bind_of_eq_some (require_of_lookup hfiles (list?_ofStrings _)) ?_
  rfl

theorem SharedIdentifier.ofJson?_toJson (shared : SharedIdentifier) :
    SharedIdentifier.ofJson? shared.toJson = some shared := by
  obtain ⟨record, hrecord, hlookup⟩ := exists_record?_ofMembers shared.toJson
    ["name", "kind", "projects", "strength", "hardOverlapGroups"] rfl rfl (by decide)
  simp only [List.forall_mem_cons] at hlookup
  obtain ⟨hname, hkind, hprojects, hstrength, hgroups, -⟩ := hlookup
  refine bind_of_eq_some hrecord ?_
  refine bind_of_eq_some (require_of_lookup hname (text?_ofString _)) ?_
  refine bind_of_eq_some (require_of_lookup hkind (BlockKind.ofJson?_toJson _)) ?_
  refine bind_of_eq_some (require_of_lookup hprojects (nameSet?_toJson _)) ?_
  refine bind_of_eq_some (require_of_lookup hstrength (Strength.ofJson?_toJson _)) ?_
  refine bind_of_eq_some (require_of_lookup hgroups (list?_map_self nameSet?_toJson _)) ?_
  rfl

/-- The report without what is left out where its projects are written. -/
def Report.forgetSources (report : Report) : Report :=
  { report with projects := report.projects.map Project.forgetSources }

/-- A report is read back without the details and mentions of its projects. -/
theorem Report.ofJson?_toJson (report : Report) :
    Report.ofJson? report.toJson = some report.forgetSources := by
  obtain ⟨record, hrecord, hlookup⟩ := exists_record?_ofMembers report.toJson
    ["projects", "duplicates", "sharedIdentifiers"] rfl rfl (by decide)
  simp only [List.forall_mem_cons] at hlookup
  obtain ⟨hprojects, hduplicates, hshared, -⟩ := hlookup
  refine bind_of_eq_some hrecord ?_
  refine bind_of_eq_some (require_of_lookup hprojects (list?_map Project.ofJson?_toJson _)) ?_
  refine bind_of_eq_some
    (require_of_lookup hduplicates (list?_map_self Duplicate.ofJson?_toJson _)) ?_
  refine bind_of_eq_some
    (require_of_lookup hshared (list?_map_self SharedIdentifier.ofJson?_toJson _)) ?_
  rfl

/-! ## The text of a report -/

theorem FileSummary.isPrintable_toJson (file : FileSummary) : file.toJson.IsPrintable :=
  isPrintable_ofMembers (by simp [isPrintable_ofString, isPrintable_ofStrings])

theorem VariablesByScope.isPrintable_toJson (sets : VariablesByScope) : sets.toJson.IsPrintable :=
  isPrintable_ofMembers (by simp [isPrintable_nameSet])

theorem Project.isPrintable_toJson (project : Project) : project.toJson.IsPrintable :=
  isPrintable_ofMembers (by
    simp [isPrintable_ofString, isPrintable_ofStrings, isPrintable_nameSet, Json.IsPrintable.bool,
      isPrintable_map FileSummary.isPrintable_toJson, VariablesByScope.isPrintable_toJson])

theorem Duplicate.isPrintable_toJson (duplicate : Duplicate) : duplicate.toJson.IsPrintable :=
  isPrintable_ofMembers (by simp [isPrintable_ofStrings, isPrintable_nameSet])

theorem SharedIdentifier.isPrintable_toJson (shared : SharedIdentifier) :
    shared.toJson.IsPrintable :=
  isPrintable_ofMembers (by
    simp [isPrintable_ofString, isPrintable_nameSet, isPrintable_map isPrintable_nameSet,
      BlockKind.toJson, Strength.toJson])

theorem Report.isPrintable_toJson (report : Report) : report.toJson.IsPrintable :=
  isPrintable_ofMembers (by
    simp [isPrintable_map Project.isPrintable_toJson, isPrintable_map Duplicate.isPrintable_toJson,
      isPrintable_map SharedIdentifier.isPrintable_toJson])

/-! ## What does not depend on details and mentions -/

namespace Report

/-- The edges of a report are drawn from the names and references of its projects. -/
theorem edges_forgetSources (report : Report) : report.forgetSources.edges = report.edges := by
  have hraw : report.forgetSources.rawEdges = report.rawEdges := by
    simp only [rawEdges, forgetSources, List.flatMap_map]
    rfl
  rw [edges, hraw, edges]

/-- A project is looked up by its name. -/
theorem project?_forgetSources (report : Report) (name : String) :
    report.forgetSources.project? name = (report.project? name).map Project.forgetSources := by
  rw [project?, forgetSources, List.find?_map]
  rfl

/-- Details and mentions are not written. -/
theorem toJson_forgetSources (report : Report) : report.forgetSources.toJson = report.toJson := by
  simp only [toJson, forgetSources, List.map_map]
  rfl

/-- A report that is written in either layout is read back, with the details and mentions of its
projects empty and everything else as it was. So the report that is read has the same edges, finds
the same projects by their names, and is written as the same value. -/
theorem parse?_write_toJson (report : Report) (layout : Json.Layout) :
    ∃ read, (Json.parse? (report.toJson.write layout)).bind ofJson? = some read
      ∧ read.projects = report.projects.map (fun project =>
          { project with identifierDetails := [], mentions := [] })
      ∧ read.duplicates = report.duplicates
      ∧ read.sharedIdentifiers = report.sharedIdentifiers
      ∧ read.edges = report.edges
      ∧ (∀ name, read.project? name = (report.project? name).map fun project =>
          { project with identifierDetails := [], mentions := [] })
      ∧ read.toJson = report.toJson := by
  refine ⟨report.forgetSources, ?_, rfl, rfl, rfl, edges_forgetSources report,
    project?_forgetSources report, toJson_forgetSources report⟩
  rw [Json.parse?_write (isPrintable_toJson report) layout, Option.bind_some, ofJson?_toJson]

end Report

end CodeSurvey
