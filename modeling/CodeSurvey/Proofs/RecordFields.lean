import CodeSurvey.Project.Json
import CodeSurvey.Proofs.JsonText

/-!
# Records that are written are read back

A record is an object with a member for every field. The fields of a record that is read do not
depend on the order of the members, nor on members that are no fields. Each way of reading a value
undoes one way of writing it.

## Key results

- `exists_record?_of_isPart`: the fields that a part of an object gives
- `list?_map`: a list is read back if its items are
- `nameSet?_toJson`, `labelTable?_ofMembers`: so are sets and tables
- `isPrintable_ofMembers`: a record can be told from its text if its fields can
-/

namespace CodeSurvey

/-! ## Sets and tables -/

/-- A set is made of the names on its list. -/
theorem NameSet.ofList_toList (set : NameSet) : NameSet.ofList set.toList = set :=
  NameSet.eq_of_mem_iff fun _ => NameSet.mem_ofList

/-- A name behind all others goes to the end. -/
theorem insertEntry_concat {name label : String} {entries : List (String × String)}
    (h : ∀ entry ∈ entries, entry.1 < name) :
    insertEntry name label entries = entries ++ [(name, label)] := by
  fun_induction insertEntry name label entries with
  | case1 => rfl
  | case2 key old rest hlt =>
    exact absurd (h _ List.mem_cons_self) (String.lt_asymm hlt)
  | case3 old rest => exact absurd (h _ List.mem_cons_self) (String.lt_irrefl name)
  | case4 key old rest hlt hne ih =>
    rw [ih fun entry hentry => h entry (List.mem_cons_of_mem _ hentry), List.cons_append]

/-- A table is made of its entries. -/
theorem LabelTable.ofList_entries (table : LabelTable) :
    LabelTable.ofList table.entries = table := by
  have hfold : ∀ (rest : List (String × String)) (made : LabelTable),
      (made.entries ++ rest).Pairwise (·.1 < ·.1) →
        (rest.foldl (fun table entry => table.insert entry.1 entry.2) made).entries =
          made.entries ++ rest := by
    intro rest
    induction rest with
    | nil => intro made _; rw [List.foldl_nil, List.append_nil]
    | cons entry rest ih =>
      intro made hascending
      -- all names in the table so far come before the names that are still to come
      have hlast : (made.insert entry.1 entry.2).entries = made.entries ++ [entry] :=
        insertEntry_concat fun other hother =>
          (List.pairwise_append.1 hascending).2.2 other hother entry List.mem_cons_self
      rw [List.append_cons] at hascending ⊢
      rw [List.foldl_cons, ih _ (by rwa [hlast]), hlast]
  have hentries := hfold table.entries empty table.ascending
  cases table with
  | mk entries hascending =>
    simp only [LabelTable.ofList]
    cases hmade : entries.foldl (fun table entry => table.insert entry.1 entry.2) empty with
    | mk made hmade' =>
      rw [hmade] at hentries
      exact LabelTable.mk.injEq .. ▸ hentries

namespace Json

/-! ## Lists -/

/-- A list is read back if its items are. -/
theorem list?_map {α β : Type} {item? : Json → Option β} {written : α → Json} {meant : α → β}
    (h : ∀ a, item? (written a) = some (meant a)) (items : List α) :
    (array (items.map written)).list? item? = some (items.map meant) :=
  List.mapM_map_eq_some h items

theorem list?_map_self {α : Type} {item? : Json → Option α} {written : α → Json}
    (h : ∀ a, item? (written a) = some a) (items : List α) :
    (array (items.map written)).list? item? = some items :=
  List.mapM_map_self h items

@[simp] theorem list?_ofStrings (values : List String) :
    (ofStrings values).list? text? = some values :=
  list?_map_self text?_ofString values

@[simp] theorem nameSet?_toJson (set : NameSet) : nameSet? set.toJson = some set := by
  rw [nameSet?, NameSet.toJson, list?_ofStrings, Option.map_some, NameSet.ofList_toList]

@[simp] theorem bool?_bool (value : Bool) : (bool value).bool? = some value := rfl

/-- A number that may be missing is read back if it fits. -/
theorem optional?_ofOption {value : Option Nat} (h : ∀ n ∈ value, n ≤ maxNat) :
    (ofOption (value.map ofNat)).optional? nat? = some value := by
  cases value with
  | none => rfl
  | some n =>
    show ((ofNat n).nat?).map some = _
    rw [nat?_ofNat (h n rfl), Option.map_some]

/-! ## Objects -/

@[simp] theorem members?_ofMembers (members : List (String × Json)) :
    (ofMembers members).members? = some members := by
  rw [ofMembers, members?, List.mapM_map_self fun _ => by rfl]

/-- The fields that an object gives are those among its members that have the name of a field. -/
theorem record?_ofMembers {names : List String} {members : List (String × Json)}
    (h : ((members.filter fun member => names.contains member.1).map Prod.fst).Nodup) :
    (ofMembers members).record? names =
      some ⟨members.filter fun member => names.contains member.1⟩ := by
  have hmembers := members?_ofMembers members
  rw [ofMembers] at hmembers
  rw [ofMembers, record?, hmembers]
  exact if_pos h

/-- An object that holds the chosen ones among the members of another one, in any order. All else
that it holds has names that the other object has not. -/
def IsPart (whole : Json) (chosen : String → Bool) (part : Json) : Prop :=
  ∃ members given, whole = ofMembers members ∧ part = ofMembers given
    ∧ (given.filter fun member => (members.map Prod.fst).contains member.1).Perm
        (members.filter fun member => chosen member.1)

theorem ofMembers_injective : Function.Injective ofMembers := by
  intro members others h
  refine List.map_injective_iff.2 ?_ (object.inj h)
  intro member other h
  exact Prod.ext (Option.some.inj (congrArg Prod.fst h)) (congrArg Prod.snd h :)

/-- An object is a part of itself. -/
theorem isPart_self (members : List (String × Json)) :
    (ofMembers members).IsPart (fun _ => true) (ofMembers members) := by
  refine ⟨members, members, rfl, rfl, List.Perm.of_eq ?_⟩
  rw [List.filter_eq_self.2 fun _ _ => rfl, List.filter_eq_self]
  exact fun member hmember => List.contains_iff_mem.2 (List.mem_map_of_mem hmember)

section Fields

variable {members : List (String × Json)}

/-- A part of an object gives the chosen ones among its fields and no others. -/
theorem exists_record?_of_isPart {chosen : String → Bool} {part : Json}
    (h : (ofMembers members).IsPart chosen part) (names : List String)
    (hnames : members.map Prod.fst = names) (hnodup : names.Nodup) :
    ∃ record, part.record? names = some record ∧ ∀ member ∈ members,
      record.fields.lookup member.1 = if chosen member.1 then some member.2 else none := by
  subst hnames
  obtain ⟨whole, given, hwhole, rfl, hperm⟩ := h
  obtain rfl := ofMembers_injective hwhole
  -- a name that stands on the whole object once is given at most once
  have hchosen : ((members.filter fun member => chosen member.1).map Prod.fst).Nodup :=
    hnodup.sublist (List.filter_sublist.map Prod.fst)
  have hgiven := (hperm.map Prod.fst).nodup_iff.2 hchosen
  refine ⟨_, record?_ofMembers hgiven, fun member hmember => ?_⟩
  -- as no name is repeated, a lookup is a question of membership
  split
  · rename_i hname
    refine List.lookup_eq_some_of_forall
      (hperm.mem_iff.2 (List.mem_filter.2 ⟨hmember, hname⟩)) fun other hother hfst => ?_
    have hother := List.mem_of_mem_filter (hperm.mem_iff.1 hother)
    rw [List.inj_on_of_nodup_map hnodup hother hmember hfst]
  · rename_i hname
    refine List.lookup_eq_none_iff.2 fun other hother => ?_
    have hother := (List.mem_filter.1 (hperm.mem_iff.1 hother)).2
    exact bne_iff_ne.2 fun heq => hname (heq ▸ hother)

/-- An object gives all its fields. -/
theorem exists_record?_ofMembers (whole : Json) (names : List String)
    (hwhole : whole = ofMembers members) (hnames : members.map Prod.fst = names)
    (hnodup : names.Nodup) :
    ∃ record, whole.record? names = some record ∧
      ∀ member ∈ members, record.fields.lookup member.1 = some member.2 := by
  subst hwhole
  exact exists_record?_of_isPart (isPart_self members) names hnames hnodup

end Fields

/-- A record is read field by field. -/
theorem bind_of_eq_some {α β : Type} {read : Option α} {a : α} {next : α → Option β} {b : β}
    (h : read = some a) (hnext : next a = some b) : (read >>= next) = some b :=
  Option.bind_eq_some_iff.2 ⟨a, h, hnext⟩

section Field

variable {α : Type} {record : Record} {name : String} {value : Json} {read? : Json → Option α}
  {meant : α}

/-- A field that has to be given. -/
theorem Record.require_of_lookup (h : record.fields.lookup name = some value)
    (hread : read? value = some meant) : record.require name read? = some meant := by
  rw [require, h, Option.bind_some, hread]

/-- A field that has its default if it is not given. -/
theorem Record.getD_of_lookup {given : Bool}
    (h : record.fields.lookup name = if given then some value else none)
    (hread : read? value = some meant) (default : α) :
    record.getD name read? default = some (if given then meant else default) := by
  rw [getD, h]
  cases given with
  | false => rfl
  | true => exact hread

end Field

@[simp] theorem labelTable?_ofMembers (table : LabelTable) :
    (ofMembers (table.entries.map fun entry => (entry.1, ofString entry.2))).labelTable? =
      some table := by
  have hentries : (table.entries.map fun entry => (entry.1, ofString entry.2)).mapM
      (fun member => (text? member.2).map fun label => (member.1, label)) =
        some table.entries := List.mapM_map_self (fun _ => by rfl) table.entries
  simp [labelTable?, hentries, LabelTable.ofList_entries]

/-! ## Told apart by how they are written -/

theorem isPrintable_ofString (value : String) : (ofString value).IsPrintable :=
  .text value

theorem isPrintable_ofNat {n : Nat} (h : n ≤ maxNat) : (ofNat n).IsPrintable :=
  .number (JsonNumber.isCanonical_ofNat h)

theorem isPrintable_map {α : Type} {written : α → Json} (h : ∀ a, (written a).IsPrintable)
    (items : List α) : (array (items.map written)).IsPrintable :=
  .array (List.forall_mem_map.2 fun a _ => h a)

theorem isPrintable_ofStrings (values : List String) : (ofStrings values).IsPrintable :=
  isPrintable_map isPrintable_ofString values

theorem isPrintable_nameSet (set : NameSet) : set.toJson.IsPrintable :=
  isPrintable_ofStrings set.toList

/-- An object can be told from its text if the values of its members can. -/
theorem isPrintable_ofMembers {members : List (String × Json)}
    (h : ∀ member ∈ members, member.2.IsPrintable) : (ofMembers members).IsPrintable :=
  .object (List.forall_mem_map.2 fun _ _ => rfl) (List.forall_mem_map.2 h)

end Json

end CodeSurvey
