import CodeSurvey.NameSet
import CodeSurvey.NativeText
import CodeSurvey.Text.Blank
import CodeSurvey.Text.Lowercase

/-!
# Ignore sets

The names of directories that are not looked into. Names are kept trimmed and in lower case, blank
names are dropped, and a directory is ignored if its name is in the set as it is or in lower case.
-/

namespace CodeSurvey

/-- A name without the white space around it and in lower case. -/
def tidyName (name : String) : String :=
  Text.lower (Text.trimString name)

/-- The tidy forms of some names, blank ones left out. -/
def tidyNames (names : List String) : List String :=
  (names.map tidyName).filter (· != "")

/-- The directories that are not looked into. -/
structure IgnoreSet where
  names : NameSet
deriving DecidableEq

namespace IgnoreSet

/-- The set of the tidy forms of some names. -/
def ofNames (names : List String) : IgnoreSet :=
  ⟨NameSet.ofList (tidyNames names)⟩

/-- Whether a directory with this name is ignored. -/
def contains (set : IgnoreSet) (name : String) : Bool :=
  decide (name ∈ set.names) || decide (Text.lower name ∈ set.names)

/-- Whether a directory with this name is passed over. The set holds no names that are not UTF-8. -/
def skips (set : IgnoreSet) (name : NativeText) : Bool :=
  name.text?.any set.contains

/-- How many names the set holds. -/
def size (set : IgnoreSet) : Nat :=
  set.names.size

/-- Whether nothing is ignored. -/
def isEmpty (set : IgnoreSet) : Bool :=
  set.names.isEmpty

@[simp] theorem skips_text (set : IgnoreSet) (name : String) :
    set.skips (.text name) = set.contains name := rfl

theorem contains_ofNames (names : List String) (name : String) :
    (ofNames names).contains name =
      (decide (name ∈ tidyNames names) || decide (Text.lower name ∈ tidyNames names)) := by
  simp [contains, ofNames]

end IgnoreSet

end CodeSurvey
