/-!
# Label tables

A finite map from names to labels, kept in ascending order of the names, each name once.
`get?_insert` says that the last label given to a name is the one it has.
-/

namespace CodeSurvey

/-- Gives a name a label in an ascending list of entries. -/
def insertEntry (name label : String) : List (String × String) → List (String × String)
  | [] => [(name, label)]
  | (key, old) :: rest =>
    if name < key then (name, label) :: (key, old) :: rest
    else if name = key then (name, label) :: rest
    else (key, old) :: insertEntry name label rest

theorem fst_of_mem_insertEntry {name label : String} {entries : List (String × String)}
    {entry : String × String} (h : entry ∈ insertEntry name label entries) :
    entry.1 = name ∨ entry ∈ entries := by
  fun_induction insertEntry name label entries with
  | case1 => simp_all
  | case2 key old rest hlt => simp_all; grind
  | case3 old rest => simp_all; grind
  | case4 key old rest hlt hne ih => simp_all; grind

theorem pairwise_insertEntry {name label : String} {entries : List (String × String)}
    (h : entries.Pairwise (·.1 < ·.1)) : (insertEntry name label entries).Pairwise (·.1 < ·.1) := by
  fun_induction insertEntry name label entries with
  | case1 => simp
  | case2 key old rest hlt =>
    refine List.pairwise_cons.2 ⟨fun entry hentry => ?_, h⟩
    rcases List.mem_cons.1 hentry with rfl | hentry
    · exact hlt
    · exact String.lt_trans hlt ((List.pairwise_cons.1 h).1 entry hentry)
  | case3 old rest => exact List.pairwise_cons.2 (List.pairwise_cons.1 h)
  | case4 key old rest hlt hne ih =>
    have hcons := List.pairwise_cons.1 h
    refine List.pairwise_cons.2 ⟨fun entry hentry => ?_, ih hcons.2⟩
    rcases fst_of_mem_insertEntry hentry with heq | hentry
    · have : key ≤ name := String.not_lt.1 hlt
      exact heq ▸ Std.lt_of_le_of_ne this (Ne.symm hne)
    · exact hcons.1 entry hentry

/-- A finite map from names to labels. -/
structure LabelTable where
  entries : List (String × String)
  ascending : entries.Pairwise (·.1 < ·.1)
deriving DecidableEq

namespace LabelTable

/-- The table without entries. -/
def empty : LabelTable := ⟨[], List.Pairwise.nil⟩

instance : Inhabited LabelTable := ⟨empty⟩

/-- The table in which a name has a new label. -/
def insert (table : LabelTable) (name label : String) : LabelTable :=
  ⟨insertEntry name label table.entries, pairwise_insertEntry table.ascending⟩

/-- The table with the given entries; of several for one name the last counts. -/
def ofList (entries : List (String × String)) : LabelTable :=
  entries.foldl (fun table entry => table.insert entry.1 entry.2) empty

/-- The label of a name. -/
def get? (table : LabelTable) (name : String) : Option String :=
  table.entries.lookup name

theorem lookup_insertEntry (name label key : String) (entries : List (String × String)) :
    (insertEntry name label entries).lookup key
      = if key = name then some label else entries.lookup key := by
  fun_induction insertEntry name label entries with
  | case1 => grind
  | case2 other old rest hlt => grind
  | case3 old rest => grind
  | case4 other old rest hlt hne ih => grind

/-- The last label given to a name is the one it has. -/
theorem get?_insert (table : LabelTable) (name label key : String) :
    (table.insert name label).get? key = if key = name then some label else table.get? key :=
  lookup_insertEntry name label key table.entries

end LabelTable

end CodeSurvey
