import CodeSurvey.Scope.Sweep

/-!
# Extraction

All that is read from one source text: its blocks, its variables with their scopes, the names it
declares and the targets it imports.
-/

namespace CodeSurvey

/-- A declared variable, the byte at which its declaration starts, and its scope. -/
structure ScopedVariable where
  name : String
  offset : Nat
  scope : Scope
deriving Repr, DecidableEq

namespace ScopedVariable

/-- The variables that a source text declares, in order, with their scopes among `blocks`. -/
def extract (text : List Char) (blocks : List Block) : List ScopedVariable :=
  let declarations := Pattern.variableDeclaration.findAll text
  let scopes := Scope.resolveAll blocks (declarations.map Match.start)
  (declarations.zip scopes).filterMap fun (declaration, scope) =>
    declaration.group.map fun name => ⟨name, declaration.start, scope⟩

/-- The variables of a source text, declaration by declaration. -/
theorem extract_eq_filterMap (text : List Char) (blocks : List Block) :
    extract text blocks =
      (Pattern.variableDeclaration.findAll text).filterMap fun declaration =>
        declaration.group.map fun name =>
          ⟨name, declaration.start, Scope.resolve blocks declaration.start⟩ := by
  simp only [extract, Scope.resolveAll_eq_map, List.map_map]
  induction Pattern.variableDeclaration.findAll text with
  | nil => rfl
  | cons declaration rest ih =>
    simp only [List.map_cons, List.zip_cons_cons, List.filterMap_cons, Function.comp_apply, ih]

end ScopedVariable

/-- A list without repetitions: of equal elements the first stays. -/
def firstOccurrences (names : List String) : List String :=
  names.eraseDups

/-- The targets that a source text imports, without repetitions: those of import declarations, then
those of require calls, then those of import calls. -/
def importTargets (text : List Char) : List String :=
  firstOccurrences <|
    Pattern.staticImport.groups text ++ Pattern.requireCall.groups text
      ++ Pattern.dynamicImport.groups text

/-- What is read from one source text. -/
structure Extraction where
  blocks : List Block
  declarations : List ScopedVariable
  functions : List String
  classes : List String
  methods : List String
  references : List String
deriving Repr, DecidableEq

namespace Extraction

/-- Reads a source text; block texts are cut to `limit` characters. -/
def ofText (limit : Nat) (source : String) : Extraction :=
  let text := source.toList
  let blocks := Block.extract limit text
  { blocks
    declarations := ScopedVariable.extract text blocks
    functions := Pattern.functionName.groups text
    classes := Pattern.className.groups text
    methods := Pattern.methodHeader.groups text
    references := importTargets text }

/-- The names of the variables, repetitions included. -/
def variableNames (extraction : Extraction) : List String :=
  extraction.declarations.map ScopedVariable.name

end Extraction

end CodeSurvey
