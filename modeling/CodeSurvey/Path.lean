/-!
# Paths

A path is a text; what it says is its components. Repeated slashes and single dots say nothing,
except for a dot at the start of a relative path. The file name of a path is its last component,
if that is a plain name, and the extension is what stands behind the last dot of the file name,
unless nothing stands before that dot. `dropSteps_append` says that what follows some steps is
found again.
-/

namespace CodeSurvey

/-- A path, as it is written. -/
structure Path where
  text : String
deriving Repr, DecidableEq

/-- One step of a path. -/
inductive PathComponent where
  | root
  /-- The dot at the start of a relative path. -/
  | here
  | parent
  | name (text : String)
deriving Repr, DecidableEq

namespace PathComponent

/-- How a component is written. -/
def text : PathComponent → String
  | root => "/"
  | here => "."
  | parent => ".."
  | name text => text

/-- The name that a component is, if it is a plain name. -/
def name? : PathComponent → Option String
  | name text => some text
  | _ => none

end PathComponent

namespace Path

/-- Splits a text at its slashes; `current` holds the characters since the last slash, reversed. -/
def segmentsFrom (done : List String) (current : List Char) : List Char → List String
  | [] => (String.ofList current.reverse :: done).reverse
  | c :: rest =>
    if c = '/' then segmentsFrom (String.ofList current.reverse :: done) [] rest
    else segmentsFrom done (c :: current) rest

/-- The stretches of a text between its slashes, empty ones included. -/
def segments (text : String) : List String :=
  segmentsFrom [] [] text.toList

/-- Whether a path starts at the root. -/
def isAbsolute (path : Path) : Bool :=
  path.text.front? == some '/'

/-- The step that a stretch between slashes stands for, unless it stands for none. -/
def componentOf? (segment : String) : Option PathComponent :=
  if segment = "" || segment = "." then none
  else if segment = ".." then some .parent
  else some (.name segment)

/-- The steps of a path. -/
def components (path : Path) : List PathComponent :=
  let parts := segments path.text
  let steps := parts.filterMap componentOf?
  if path.isAbsolute then .root :: steps
  else if parts.head? = some "." then .here :: steps
  else steps

/-- The plain names among some steps. -/
def namesOf (steps : List PathComponent) : List String :=
  steps.filterMap PathComponent.name?

/-- The last step, if it is a plain name. -/
def lastName? (steps : List PathComponent) : Option String :=
  steps.getLast?.bind PathComponent.name?

/-- The file name of a path. -/
def fileName? (path : Path) : Option String :=
  lastName? path.components

/-- The file name of what holds a path, one step up. -/
def parentName? (path : Path) : Option String :=
  lastName? path.components.dropLast

/-- The extension of a file name. -/
def extensionOf? (fileName : String) : Option String :=
  let reversed := fileName.toList.reverse
  let after := reversed.takeWhile (· != '.')
  match reversed.dropWhile (· != '.') with
  | _ :: _ :: _ => some (String.ofList after.reverse)
  | _ => none

/-- The extension of a path. -/
def extension? (path : Path) : Option String :=
  path.fileName?.bind extensionOf?

/-- What follows the steps of `whole` in a list of steps that starts with them. -/
def dropSteps : (whole steps : List PathComponent) → Option (List PathComponent)
  | [], steps => some steps
  | _ :: _, [] => none
  | w :: whole, s :: steps => if w = s then dropSteps whole steps else none

/-- The steps of a path below another, if it is below it. -/
def below? (root path : Path) : Option (List PathComponent) :=
  dropSteps root.components path.components

/-- The steps of a path below another, or all its steps if it is not below it. -/
def relativeSteps (root path : Path) : List PathComponent :=
  (below? root path).getD path.components

/-- The steps of a path below another with slashes between them, or the path as it is written if
it is not below the other. -/
def relativeText (root path : Path) : String :=
  match below? root path with
  | some steps => "/".intercalate (steps.map PathComponent.text)
  | none => path.text

/-- Whether two paths have the same steps. -/
def sameSteps (a b : Path) : Bool :=
  a.components == b.components

/-- A path behind another. An absolute path stands for itself. -/
def join (path : Path) (text : String) : Path :=
  if text.front? = some '/' then ⟨text⟩
  else if path.text = "" || path.text.back? = some '/' then ⟨path.text ++ text⟩
  else ⟨path.text ++ "/" ++ text⟩

/-- A path behind another, name by name. -/
def joinAll (path : Path) (names : List String) : Path :=
  names.foldl join path

/-- The absolute path with the given names. -/
def absolute (names : List String) : Path :=
  ⟨"/" ++ "/".intercalate names⟩

theorem dropSteps_append (whole steps : List PathComponent) :
    dropSteps whole (whole ++ steps) = some steps := by
  induction whole with
  | nil => rfl
  | cons w rest ih => simp [dropSteps, ih]

theorem eq_append_of_dropSteps {whole steps rest : List PathComponent}
    (h : dropSteps whole steps = some rest) : steps = whole ++ rest := by
  fun_induction dropSteps whole steps with
  | case1 => simp_all
  | case2 => simp at h
  | case3 whole s steps ih => simp [ih h]
  | case4 => simp at h

end Path

end CodeSurvey
