import CodeSurvey.Report.Edge
import CodeSurvey.Stats

/-!
# Summaries

What people read of a report: its counts, its projects and the identifiers on whose text projects
agree; and the lines in which edges are listed.
-/

namespace CodeSurvey

namespace Project

/-- The lines about a project. -/
def summaryLines (project : Project) : List String :=
  let mark := if project.hasUncommittedChanges then " *" else ""
  let technologies := ", ".intercalate project.technologies.toList
  let line := s!"  {project.name}{mark}  {project.files.length} files  [{technologies}]"
  if project.references.isEmpty then [line]
  else [line, "      references: " ++ ", ".intercalate project.references]

end Project

namespace SharedIdentifier

/-- The line about an identifier on whose text projects agree. -/
def summaryLine (shared : SharedIdentifier) : String :=
  s!"  hard {shared.kind.word} {shared.name}: " ++ ", ".intercalate shared.projects.toList

end SharedIdentifier

namespace Report

/-- The lines of a summary. -/
def summaryLines (report : Report) (stats : Stats) : List String :=
  let dirty := (report.projects.filter Project.hasUncommittedChanges).length
  let shared := report.sharedIdentifiers.length
  let hard := report.hardIdentifiers.length
  ["Workspace Summary",
    "=================",
    "",
    s!"Projects:            {report.projectNames.size} ({dirty} with uncommitted changes)",
    s!"Files parsed:        {stats.filesParsed} of {stats.filesSeen} seen",
    s!"Files hashed:        {stats.filesHashed}",
    s!"Duplicate files:     {report.duplicates.length}",
    s!"Shared identifiers:  {shared} ({hard} hard, {shared - hard} soft)"]
  ++ (if report.projects.isEmpty then [] else "" :: report.projects.flatMap Project.summaryLines)
  ++ report.hardIdentifiers.map SharedIdentifier.summaryLine

/-- A summary, every line with its end. -/
def summary (report : Report) (stats : Stats) : String :=
  String.join ((report.summaryLines stats).map (· ++ "\n"))

end Report

namespace Edge

/-- The width of the column with the kind of an edge. -/
def kindWidth : Nat := 9

/-- The line about an edge. -/
def line (edge : Edge) : String :=
  let kind := edge.kind.word
  let padding := String.ofList (List.replicate (kindWidth - kind.length) ' ')
  s!"{kind}{padding}  {edge.source} -- {edge.target}  ({edge.weight})"

end Edge

end CodeSurvey
