import CodeSurvey.Json.Parser
import CodeSurvey.Proofs.ListLemmas
import CodeSurvey.Proofs.LowerForms
import CodeSurvey.Settings.Technology

/-!
# Labels of files

The extension and the name of a file are looked up in lower case, but the names in a table are kept
as they are given. So of the names that are one word but for case only the one in lower case counts,
and a table in which it is missing tells nothing of the word, even if the word itself stands there.

## Key results

- `LabelTable.get?_eq_some_iff`: what a name is labelled with
- `LabelTable.answers_lower`: what a table tells of a word that is looked up in lower case
- `TechnologyTables.forFile_answers`: what the labels of a file are
- `TechnologyTables.tells_forFile_default`: by default case does not matter
-/

namespace CodeSurvey

namespace LabelTable

/-- A label stands in a table for a word, whatever the case of the two. -/
def Offers (table : LabelTable) (word label : String) : Prop :=
  ∃ key, (key, label) ∈ table.entries ∧ Text.lower key = Text.lower word

/-- What is told of a word, if there is one, is a label that the table offers for it, and nothing
only if it offers none. -/
structure Tells (table : LabelTable) (word? told : Option String) : Prop where
  offers : ∀ label, told = some label → ∃ word, word? = some word ∧ table.Offers word label
  offers_none : told = none → ∀ word, word? = some word → ∀ label, ¬ table.Offers word label

/-- What is told of a word, if there is one, is the label of its lower-case form. This is a label
that should be told, or rightly none, exactly if the table has the lower-case form or does not have
the word in any other case either. With names in lower case only it always is. -/
structure Answers (table : LabelTable) (word? told : Option String) : Prop where
  eq_some_iff : ∀ label, told = some label ↔
    ∃ word, word? = some word ∧
      ∃ key, (key, label) ∈ table.entries ∧ Text.lower key = Text.lower word ∧
        Text.lower key = key
  tells_iff : table.Tells word? told ↔
    ∀ word, word? = some word → (∃ label, table.Offers word label) →
      ∃ label, (Text.lower word, label) ∈ table.entries
  tells_of_lower : (∀ entry ∈ table.entries, Text.lower entry.1 = entry.1) →
    table.Tells word? told

/-- A name has the label that it stands with. -/
theorem get?_eq_some_iff (table : LabelTable) (name label : String) :
    table.get? name = some label ↔ (name, label) ∈ table.entries := by
  unfold get?
  constructor
  · intro h
    obtain ⟨front, back, heq, -⟩ := List.lookup_eq_some_iff.1 h
    rw [heq]
    simp
  · intro h
    have hnodup : (table.entries.map Prod.fst).Nodup :=
      List.pairwise_map.2 (table.ascending.imp String.ne_of_lt)
    -- no name stands in the table twice
    refine List.lookup_eq_some_of_forall h fun entry hentry hname => ?_
    rw [List.inj_on_of_nodup_map hnodup hentry h hname]

theorem get?_lower_eq_some_iff (table : LabelTable) (word label : String) :
    table.get? (Text.lower word) = some label ↔
      ∃ key, (key, label) ∈ table.entries ∧ Text.lower key = Text.lower word ∧
        Text.lower key = key := by
  rw [get?_eq_some_iff]
  constructor
  · intro h
    exact ⟨Text.lower word, h, Text.lower_lower word, Text.lower_lower word⟩
  · rintro ⟨key, hmem, hword, hkey⟩
    rwa [← hword, hkey]

/-- What is told of a word is right exactly if its lower-case form is there or the word is not there
in any case. -/
theorem tells_get?_lower_iff (table : LabelTable) (word? : Option String) :
    table.Tells word? (word?.bind fun word => table.get? (Text.lower word)) ↔
      ∀ word, word? = some word → (∃ label, table.Offers word label) →
        ∃ label, (Text.lower word, label) ∈ table.entries := by
  cases word? with
  | none =>
    have htells : table.Tells none none := ⟨fun _ h => (nomatch h), fun _ _ h => (nomatch h)⟩
    exact iff_of_true htells fun _ h => (nomatch h)
  | some word =>
    simp only [Option.bind_some, Option.some.injEq, forall_eq', ← get?_eq_some_iff]
    constructor
    · rintro ⟨-, hnone⟩ ⟨label, hlabel⟩
      by_contra hmissing
      have htold : table.get? (Text.lower word) = none :=
        Option.eq_none_iff_forall_ne_some.2 fun found hfound => hmissing ⟨found, hfound⟩
      exact hnone htold word rfl label hlabel
    · intro h
      constructor
      · intro label hlabel
        obtain ⟨key, hmem, hword, -⟩ := (get?_lower_eq_some_iff table word label).1 hlabel
        exact ⟨word, rfl, key, hmem, hword⟩
      · intro hnone other hother label hlabel
        cases hother
        obtain ⟨found, hfound⟩ := h ⟨label, hlabel⟩
        rw [hnone] at hfound
        cases hfound

/-- What a table tells of a word that is looked up in lower case. -/
theorem answers_lower (table : LabelTable) (word? : Option String) :
    table.Answers word? (word?.bind fun word => table.get? (Text.lower word)) where
  eq_some_iff label := by
    simp only [Option.bind_eq_some_iff, get?_lower_eq_some_iff]
  tells_iff := tells_get?_lower_iff table word?
  tells_of_lower hlower := by
    rw [tells_get?_lower_iff]
    rintro word - ⟨label, key, hmem, hword⟩
    -- the name that is the word but for case is its lower-case form
    rw [← hword, hlower _ hmem]
    exact ⟨label, hmem⟩

end LabelTable

namespace TechnologyTables

/-- The labels of a file are what the tables tell of its extension and then of its name, both looked
up in lower case among names that are kept as they are given. -/
theorem forFile_answers (tables : TechnologyTables) (path : Path) :
    tables.forFile path =
        (path.extension?.bind tables.forExtension?).toList ++
          (path.fileName?.bind tables.forFileName?).toList ∧
      tables.extensions.Answers path.extension? (path.extension?.bind tables.forExtension?) ∧
      tables.basenames.Answers path.fileName? (path.fileName?.bind tables.forFileName?) :=
  ⟨rfl, tables.extensions.answers_lower path.extension?,
    tables.basenames.answers_lower path.fileName?⟩

/-- Tables with an extension in capitals. -/
def capitals : TechnologyTables :=
  { extensions := .ofList [("TS", "TypeScript")] }

/-- Such tables can be given in a text, and a file with just this extension has no label. -/
theorem forFile_capitals :
    (Json.parse? "\x7b\"extensions\": \x7b\"TS\": \"TypeScript\"\x7d\x7d").bind ofJson? =
        some capitals ∧
      Path.extension? ⟨"a.TS"⟩ = some "TS" ∧ capitals.extensions.Offers "TS" "TypeScript" ∧
      capitals.forFile ⟨"a.TS"⟩ = [] ∧
      ¬ capitals.extensions.Tells (Path.extension? ⟨"a.TS"⟩)
        ((Path.extension? ⟨"a.TS"⟩).bind capitals.forExtension?) := by
  have hoffers : capitals.extensions.Offers "TS" "TypeScript" :=
    ⟨"TS", List.mem_singleton.2 rfl, rfl⟩
  have hextension : Path.extension? ⟨"a.TS"⟩ = some "TS" := by decide +kernel
  have hnone : (Path.extension? ⟨"a.TS"⟩).bind capitals.forExtension? = none := by decide +kernel
  refine ⟨by decide +kernel, hextension, hoffers, by decide +kernel, fun htells => ?_⟩
  exact htells.offers_none hnone "TS" hextension "TypeScript" hoffers

/-- The names in the default tables are in lower case. -/
theorem lower_default :
    ∀ entry ∈ ({} : TechnologyTables).extensions.entries ++
        ({} : TechnologyTables).basenames.entries,
      Text.lower entry.1 = entry.1 := by
  decide +kernel

/-- By default the case of an extension and of a file name does not matter. -/
theorem tells_forFile_default (path : Path) :
    ({} : TechnologyTables).extensions.Tells path.extension?
        (path.extension?.bind ({} : TechnologyTables).forExtension?) ∧
      ({} : TechnologyTables).basenames.Tells path.fileName?
        (path.fileName?.bind ({} : TechnologyTables).forFileName?) := by
  have hlower := List.forall_mem_append.1 lower_default
  exact ⟨(LabelTable.answers_lower _ _).tells_of_lower hlower.1,
    (LabelTable.answers_lower _ _).tells_of_lower hlower.2⟩

end TechnologyTables

end CodeSurvey
