import CodeSurvey.Json.Record
import CodeSurvey.Path
import CodeSurvey.Text.Lowercase

/-!
# Technologies

Labels for the technologies that file extensions, file names and packages stand for. Extensions and
file names are looked up in lower case, packages as they are.
-/

namespace CodeSurvey

/-- Which technologies extensions, file names and packages stand for. -/
structure TechnologyTables where
  extensions : LabelTable := .ofList [
    ("js", "JavaScript"), ("mjs", "JavaScript"), ("cjs", "JavaScript"), ("jsx", "React (JSX)"),
    ("ts", "TypeScript"), ("tsx", "React (TSX)"), ("json", "JSON"), ("html", "HTML"),
    ("htm", "HTML"), ("css", "CSS"), ("scss", "Sass/SCSS"), ("sass", "Sass/SCSS"),
    ("less", "Less"), ("md", "Markdown"), ("py", "Python"), ("rb", "Ruby"), ("java", "Java"),
    ("cs", "C#"), ("go", "Go"), ("php", "PHP"), ("rs", "Rust"), ("swift", "Swift"),
    ("kt", "Kotlin"), ("cpp", "C++"), ("c", "C")]
  basenames : LabelTable := .ofList [
    ("dockerfile", "Docker"), ("docker-compose.yml", "Docker Compose"),
    ("docker-compose.yaml", "Docker Compose"), ("makefile", "Makefile")]
  packages : LabelTable := .ofList [
    ("react", "React"), ("react-dom", "React DOM"), ("vue", "Vue"), ("@angular/core", "Angular"),
    ("express", "Express"), ("next", "Next.js"), ("nuxt", "Nuxt"), ("svelte", "Svelte"),
    ("@nestjs/core", "NestJS"), ("tailwindcss", "Tailwind CSS"), ("typescript", "TypeScript"),
    ("jest", "Jest"), ("vitest", "Vitest"), ("webpack", "Webpack"), ("rollup", "Rollup"),
    ("parcel", "Parcel"), ("eslint", "ESLint"), ("prettier", "Prettier"),
    ("@babel/core", "Babel")]
  /-- The label of a project with a package manifest. -/
  manifestLabel : String := "Node.js"
deriving DecidableEq

namespace TechnologyTables

instance : Inhabited TechnologyTables := ⟨{}⟩

/-- The technology of an extension. -/
def forExtension? (tables : TechnologyTables) (extension : String) : Option String :=
  tables.extensions.get? (Text.lower extension)

/-- The technology of a file name. -/
def forFileName? (tables : TechnologyTables) (name : String) : Option String :=
  tables.basenames.get? (Text.lower name)

/-- The technology of a package. -/
def forPackage? (tables : TechnologyTables) (name : String) : Option String :=
  tables.packages.get? name

/-- The technologies of a file: that of its extension, then that of its name. -/
def forFile (tables : TechnologyTables) (path : Path) : List String :=
  (path.extension?.bind tables.forExtension?).toList
    ++ (path.fileName?.bind tables.forFileName?).toList

/-- The names of the tables in order. -/
def fieldNames : List String :=
  ["extensions", "basenames", "packages", "manifest_label"]

/-- How a table is written. -/
def tableToJson (table : LabelTable) : Json :=
  .ofMembers (table.entries.map fun entry => (entry.1, .ofString entry.2))

/-- How tables are written. -/
def toJson (tables : TechnologyTables) : Json :=
  .ofMembers [
    ("extensions", tableToJson tables.extensions),
    ("basenames", tableToJson tables.basenames),
    ("packages", tableToJson tables.packages),
    ("manifest_label", .ofString tables.manifestLabel)]

/-- The tables that a value spells. What is missing has its default. -/
def ofJson? (value : Json) : Option TechnologyTables := do
  let record ← value.record? fieldNames
  let defaults : TechnologyTables := {}
  return {
    extensions := ← record.getD "extensions" Json.labelTable? defaults.extensions
    basenames := ← record.getD "basenames" Json.labelTable? defaults.basenames
    packages := ← record.getD "packages" Json.labelTable? defaults.packages
    manifestLabel := ← record.getD "manifest_label" Json.text? defaults.manifestLabel }

end TechnologyTables

end CodeSurvey
