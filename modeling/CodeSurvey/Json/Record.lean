import CodeSurvey.Json.Basic
import CodeSurvey.LabelTable
import CodeSurvey.NameSet

/-!
# Reading values out of JSON

A record is read from an object by the names of its fields, or from an array by their order. An
object may hold other members too; a field that is given twice is refused, and so is an array with
more items than there are fields. Which fields may be missing is for the reader of each field to
say.
-/

namespace CodeSurvey.Json

/-- The largest natural number that fits in sixty-four bits. -/
def maxNat : Nat := UInt64.size - 1

/-- The text that a value is. -/
def text? : Json → Option String
  | text value => value
  | _ => none

/-- The truth value that a value is. -/
def bool? : Json → Option Bool
  | bool value => some value
  | _ => none

/-- The natural number below two to the power of sixty-four that a value is. -/
def nat? : Json → Option Nat
  | number value => value.toNat?.filter (· ≤ maxNat)
  | _ => none

/-- The items of a list, each read in one way. -/
def list? {α : Type} (item? : Json → Option α) : Json → Option (List α)
  | array items => items.mapM item?
  | _ => none

/-- The set of names on a list. -/
def nameSet? (value : Json) : Option NameSet :=
  (value.list? text?).map NameSet.ofList

/-- None for null, and otherwise a value read in one way. -/
def optional? {α : Type} (read? : Json → Option α) : Json → Option (Option α)
  | null => some none
  | value => (read? value).map some

/-- The members of an object, if all their names spell characters. -/
def members? : Json → Option (List (String × Json))
  | object members => members.mapM fun member => member.1.map fun name => (name, member.2)
  | _ => none

/-- The table that an object of texts is. Of several labels for one name the last counts. -/
def labelTable? (value : Json) : Option LabelTable := do
  let members ← value.members?
  let entries ← members.mapM fun member => (text? member.2).map fun label => (member.1, label)
  return LabelTable.ofList entries

/-- The word of an enumeration: a text, or an object with this one name and null. -/
def word? : Json → Option String
  | text value => value
  | object [(name, null)] => name
  | _ => none

/-- The fields of a record that were given, each once. -/
structure Record where
  fields : List (String × Json)

namespace Record

/-- A field that has to be given. -/
def require {α : Type} (record : Record) (name : String) (read? : Json → Option α) : Option α :=
  (record.fields.lookup name).bind read?

/-- A field that may be missing. -/
def getD {α : Type} (record : Record) (name : String) (read? : Json → Option α) (default : α) :
    Option α :=
  match record.fields.lookup name with
  | none => some default
  | some value => read? value

end Record

/-- The record that a value is, with the given names of its fields in order. -/
def record? (names : List String) : Json → Option Record
  | array items => if items.length ≤ names.length then some ⟨names.zip items⟩ else none
  | object members => do
    let members ← (object members).members?
    let known := members.filter fun member => names.contains member.1
    if (known.map Prod.fst).Nodup then some ⟨known⟩ else none
  | _ => none

@[simp] theorem text?_ofString (value : String) : (ofString value).text? = some value := rfl

@[simp] theorem nat?_ofNat {n : Nat} (h : n ≤ maxNat) : (ofNat n).nat? = some n := by
  simp [ofNat, nat?, h]

end CodeSurvey.Json
