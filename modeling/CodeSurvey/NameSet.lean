/-!
# Sets of names

A finite set of names, kept as a strictly ascending list, so that equal sets are equal lists and
every set is written in one order. `mem_ofList` and `mem_union` say what the sets hold.
-/

namespace CodeSurvey

/-- Drops repetitions from an ascending list. -/
def dropRepeats : List String → List String
  | [] => []
  | [x] => [x]
  | x :: y :: rest => if x = y then dropRepeats (y :: rest) else x :: dropRepeats (y :: rest)

theorem mem_dropRepeats {x : String} {names : List String} :
    x ∈ dropRepeats names ↔ x ∈ names := by
  fun_induction dropRepeats names with
  | case1 => simp
  | case2 => simp
  | case3 y rest ih => simp_all
  | case4 y z rest hne ih => simp [ih]

theorem pairwise_dropRepeats {names : List String} (h : names.Pairwise (· ≤ ·)) :
    (dropRepeats names).Pairwise (· < ·) := by
  fun_induction dropRepeats names with
  | case1 => simp
  | case2 => simp
  | case3 y rest ih => exact ih (List.pairwise_cons.1 h).2
  | case4 y z rest hne ih =>
    have hall := (List.pairwise_cons.1 h).1
    have htail := (List.pairwise_cons.1 h).2
    refine List.pairwise_cons.2 ⟨fun x hx => ?_, ih htail⟩
    have hzx : z ≤ x := by
      rcases List.mem_cons.1 (mem_dropRepeats.1 hx) with rfl | hx
      · exact String.le_refl _
      · exact (List.pairwise_cons.1 htail).1 x hx
    have hyz : y < z :=
      Std.lt_of_le_of_ne (hall z (by simp)) hne
    exact Std.lt_of_lt_of_le hyz hzx

/-- A finite set of names. -/
structure NameSet where
  toList : List String
  ascending : toList.Pairwise (· < ·)
deriving DecidableEq

namespace NameSet

/-- The set with no names. -/
def empty : NameSet := ⟨[], List.Pairwise.nil⟩

instance : Inhabited NameSet := ⟨empty⟩

/-- The set of the names on a list. -/
def ofList (names : List String) : NameSet :=
  ⟨dropRepeats (names.mergeSort fun a b => decide (a ≤ b)), pairwise_dropRepeats (by
    have sorted : (names.mergeSort fun a b => decide (a ≤ b)).Pairwise
        fun a b => decide (a ≤ b) = true :=
      List.pairwise_mergeSort
        (fun a b c hab hbc => by
          simpa using Std.le_trans (of_decide_eq_true hab) (of_decide_eq_true hbc))
        (fun a b => by simpa using String.le_total a b) names
    exact sorted.imp fun h => of_decide_eq_true h)⟩

instance : Membership String NameSet := ⟨fun set name => name ∈ set.toList⟩

instance (name : String) (set : NameSet) : Decidable (name ∈ set) :=
  inferInstanceAs (Decidable (name ∈ set.toList))

theorem mem_toList {name : String} {set : NameSet} : name ∈ set.toList ↔ name ∈ set := Iff.rfl

/-- The set with the names on a list added. -/
def addAll (set : NameSet) (names : List String) : NameSet :=
  ofList (set.toList ++ names)

/-- The set with a name added. -/
def insert (set : NameSet) (name : String) : NameSet :=
  set.addAll [name]

/-- The names of either set. -/
def union (a b : NameSet) : NameSet :=
  a.addAll b.toList

/-- How many names a set holds. -/
def size (set : NameSet) : Nat :=
  set.toList.length

/-- Whether a set holds no names. -/
def isEmpty (set : NameSet) : Bool :=
  set.toList.isEmpty

@[simp] theorem mem_ofList {name : String} {names : List String} :
    name ∈ ofList names ↔ name ∈ names := by
  simp [← mem_toList, ofList, mem_dropRepeats]

@[simp] theorem mem_addAll {name : String} {set : NameSet} {names : List String} :
    name ∈ set.addAll names ↔ name ∈ set ∨ name ∈ names := by
  simp [addAll, mem_toList]

@[simp] theorem mem_insert {name other : String} {set : NameSet} :
    name ∈ set.insert other ↔ name ∈ set ∨ name = other := by
  simp [insert]

@[simp] theorem mem_union {name : String} {a b : NameSet} :
    name ∈ a.union b ↔ name ∈ a ∨ name ∈ b := by
  simp [union, mem_toList]

@[simp] theorem not_mem_empty {name : String} : ¬ name ∈ empty := by
  simp [← mem_toList, empty]

theorem nodup_toList (set : NameSet) : set.toList.Nodup :=
  set.ascending.imp String.ne_of_lt

/-- Sets with the same names are equal. -/
theorem eq_of_mem_iff {a b : NameSet} (h : ∀ name, name ∈ a ↔ name ∈ b) : a = b := by
  have hperm : a.toList.Perm b.toList :=
    (List.perm_ext_iff_of_nodup a.nodup_toList b.nodup_toList).2 h
  -- one ascending order is left
  have hlists : a.toList = b.toList := hperm.eq_of_pairwise
    (fun x y _ _ hxy hyx => absurd (String.lt_trans hxy hyx) (String.lt_irrefl x))
    a.ascending b.ascending
  cases a
  cases b
  cases hlists
  rfl

end NameSet

end CodeSurvey
