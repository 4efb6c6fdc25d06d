import Mathlib.Data.List.Infix
import CodeSurvey.Proofs.LowerParts
import CodeSurvey.Proofs.ReferenceResolution

/-!
# Names in mentions

A mention names a project if the project's name stands in it, set apart by what stands around it.
Both are taken in lower case, each by itself. So a mention in which the name is written out names
the project if the name's capital sigmas end words in the mention as they do in the name alone.

## Key results

- `mentionNames_iff_exists`: a mention names a project exactly if the name stands in it, set apart
- `mentionsName_of_keepsWordEnds`: when a mention in which a name is written out names the project
- `isReferable_of_ne`: among projects with different names any other one can be referred to
- `resolve_of_written`: a mention in which another project's name is written out refers to it
-/

namespace CodeSurvey.Resolution

theorem occursIn_iff (part text : List Char) : occursIn part text = true ↔ part <:+: text := by
  induction text with
  | nil => rw [occursIn, List.isEmpty_iff, List.infix_nil]
  | cons c rest ih =>
    rw [occursIn, Bool.or_eq_true, List.isPrefixOf_iff_prefix, ih, List.infix_cons_iff]

/-- What stands before and behind a name in a mention sets it apart: nothing on both sides, a slash
before it at the end, an at sign or a colon before it, or a slash or a point behind it. -/
def SetsApart (front back : List Char) : Prop :=
  (front = [] ∧ back = []) ∨ (front.getLast? = some '/' ∧ back = []) ∨
    (front.getLast? = some '@' ∨ front.getLast? = some ':') ∨
      (back.head? = some '/' ∨ back.head? = some '.')

instance (front back : List Char) : Decidable (SetsApart front back) :=
  inferInstanceAs (Decidable (_ ∨ _))

/-- A mark stands before a part of a text, whatever else. -/
theorem infix_cons_iff_exists (mark : Char) (part text : List Char) :
    mark :: part <:+: text ↔
      ∃ front back, text = front ++ part ++ back ∧ front.getLast? = some mark := by
  constructor
  · rintro ⟨front, back, rfl⟩
    exact ⟨front ++ [mark], back, by simp, by simp⟩
  · rintro ⟨front, back, rfl, hmark⟩
    obtain ⟨start, rfl⟩ := List.getLast?_eq_some_iff.1 hmark
    exact ⟨start, back, by simp⟩

/-- A mark stands behind a part of a text, whatever else. -/
theorem infix_concat_iff_exists (part text : List Char) (mark : Char) :
    part ++ [mark] <:+: text ↔
      ∃ front back, text = front ++ part ++ back ∧ back.head? = some mark := by
  constructor
  · rintro ⟨front, back, rfl⟩
    exact ⟨front, mark :: back, by simp, rfl⟩
  · rintro ⟨front, back, rfl, hmark⟩
    obtain ⟨rest, rfl⟩ := List.head?_eq_some_iff.1 hmark
    exact ⟨front, rest, by simp⟩

theorem suffix_cons_iff_exists (mark : Char) (part text : List Char) :
    mark :: part <:+ text ↔
      ∃ front, text = front ++ part ∧ front.getLast? = some mark := by
  constructor
  · rintro ⟨front, rfl⟩
    exact ⟨front ++ [mark], by simp, by simp⟩
  · rintro ⟨front, rfl, hmark⟩
    obtain ⟨start, rfl⟩ := List.getLast?_eq_some_iff.1 hmark
    exact ⟨start, by simp⟩

/-- A mention names a project exactly if the name stands in it, set apart. -/
theorem mentionNames_iff_exists (mention name : String) :
    mentionNames mention name = true ↔
      ∃ front back, mention.toList = front ++ name.toList ++ back ∧ SetsApart front back := by
  simp only [mentionNames, Bool.or_eq_true, beq_iff_eq, List.isSuffixOf_iff_suffix, occursIn_iff]
  constructor
  · rintro ((((((rfl | hend) | hbetween) | hat) | hcolon) | hslash) | hpoint)
    · exact ⟨[], [], by simp, .inl ⟨rfl, rfl⟩⟩
    · obtain ⟨front, htext, hmark⟩ := (suffix_cons_iff_exists _ _ _).1 hend
      exact ⟨front, [], by simpa using htext, .inr (.inl ⟨hmark, rfl⟩)⟩
    · -- the slash behind the name is enough
      have hslash := (List.suffix_cons _ _).isInfix.trans hbetween
      obtain ⟨front, back, htext, hmark⟩ := (infix_concat_iff_exists _ _ _).1 hslash
      exact ⟨front, back, htext, .inr (.inr (.inr (.inl hmark)))⟩
    · obtain ⟨front, back, htext, hmark⟩ := (infix_cons_iff_exists _ _ _).1 hat
      exact ⟨front, back, htext, .inr (.inr (.inl (.inl hmark)))⟩
    · obtain ⟨front, back, htext, hmark⟩ := (infix_cons_iff_exists _ _ _).1 hcolon
      exact ⟨front, back, htext, .inr (.inr (.inl (.inr hmark)))⟩
    · obtain ⟨front, back, htext, hmark⟩ := (infix_concat_iff_exists _ _ _).1 hslash
      exact ⟨front, back, htext, .inr (.inr (.inr (.inl hmark)))⟩
    · obtain ⟨front, back, htext, hmark⟩ := (infix_concat_iff_exists _ _ _).1 hpoint
      exact ⟨front, back, htext, .inr (.inr (.inr (.inr hmark)))⟩
  · rintro ⟨front, back, htext, ⟨rfl, rfl⟩ | ⟨hmark, rfl⟩ | (hmark | hmark) | (hmark | hmark)⟩
    · have hwhole : mention = name := String.toList_inj.1 (by simpa using htext)
      simp [hwhole]
    · have hend := (suffix_cons_iff_exists _ _ _).2 ⟨front, by simpa using htext, hmark⟩
      simp [hend]
    · have hat := (infix_cons_iff_exists _ _ _).2 ⟨front, back, htext, hmark⟩
      simp [hat]
    · have hcolon := (infix_cons_iff_exists _ _ _).2 ⟨front, back, htext, hmark⟩
      simp [hcolon]
    · have hslash := (infix_concat_iff_exists _ _ _).2 ⟨front, back, htext, hmark⟩
      simp [hslash]
    · have hpoint := (infix_concat_iff_exists _ _ _).2 ⟨front, back, htext, hmark⟩
      simp [hpoint]

/-! ## Lower case -/

/-- What sets a name apart does so in lower case too. -/
theorem SetsApart.lowerWithin {front back : List Char} (h : SetsApart front back)
    (part : List Char) :
    SetsApart (Text.lowerWithin [] front (part ++ back))
      (Text.lowerWithin (front ++ part) back []) := by
  rcases h with ⟨rfl, rfl⟩ | ⟨hslash, rfl⟩ | (hat | hcolon) | (hslash | hpoint)
  · exact .inl ⟨rfl, rfl⟩
  · exact .inr (.inl ⟨Text.getLast?_lowerWithin rfl hslash _ _, rfl⟩)
  · exact .inr (.inr (.inl (.inl (Text.getLast?_lowerWithin rfl hat _ _))))
  · exact .inr (.inr (.inl (.inr (Text.getLast?_lowerWithin rfl hcolon _ _))))
  · exact .inr (.inr (.inr (.inl (Text.head?_lowerWithin rfl hslash _ _))))
  · exact .inr (.inr (.inr (.inr (Text.head?_lowerWithin rfl hpoint _ _))))

/-- A mention in which a name is written out, set apart, names the project if the sigmas of the name
end words there as they do in the name alone. -/
theorem mentionsName_of_keepsWordEnds {mention name : String} {front back : List Char}
    (hwritten : mention.toList = front ++ name.toList ++ back) (hapart : SetsApart front back)
    (hkeeps : Text.KeepsWordEnds front name.toList back) : mentionsName name mention = true := by
  have hlower := Text.toList_lower_of_append hwritten
  rw [(Text.lowerWithin_eq_lower_iff front back name).2 hkeeps] at hlower
  exact (mentionNames_iff_exists _ _).2 ⟨_, _, hlower, hapart.lowerWithin name.toList⟩

/-! ## Projects with different names -/

section Distinct

variable {projects : List Project}
  (hnonempty : ∀ project ∈ projects, Text.lower project.name ≠ "")
  (hdistinct : (projects.map fun project => Text.lower project.name).Nodup)
  {i j : Nat} {project other : Project} (hproject : projects[i]? = some project)
  (hother : projects[j]? = some other) (hne : i ≠ j)

include hnonempty hdistinct hproject hother hne

/-- Among projects whose names differ in lower case each can refer to any other one. -/
theorem isReferable_of_ne :
    IsReferable (projects.map Project.name) project.name other.name := by
  have hmem := List.mem_of_getElem? hother
  refine ⟨?_, ?_, ?_⟩
  · -- the first project that agrees with it in lower case is the project itself
    obtain ⟨first, hfirst, hlower⟩ := exists_isFirstSpelling (List.mem_map_of_mem hmem)
    obtain ⟨found, hfound, rfl⟩ := List.mem_map.1 hfirst.mem
    rw [List.inj_on_of_nodup_map hdistinct hfound hmem hlower] at hfirst
    exact hfirst
  · rw [ne_eq, ← Text.lower_eq_empty_iff]
    exact hnonempty other hmem
  · exact fun heq => hne (List.position_eq_of_nodup_map hdistinct hother hproject heq).symm

/-- A mention in which the name of another project is written out, set apart, refers to that
project, if the capital sigmas of the name end words in the mention as they do in the name alone:
exactly then the name has its own lower-case form there. A name without capital sigma always has it,
and so has a name between slashes. -/
theorem resolve_of_written {mention : String} (hmention : mention ∈ project.mentions)
    {front back : List Char} (hwritten : mention.toList = front ++ other.name.toList ++ back)
    (hapart : SetsApart front back) :
    (Text.lowerWithin front other.name.toList back = (Text.lower other.name).toList ↔
        Text.KeepsWordEnds front other.name.toList back) ∧
      (Text.KeepsWordEnds front other.name.toList back →
        ∃ resolved, (resolve projects)[i]? = some resolved ∧
          other.name ∈ resolved.references ∧ mention ∉ resolved.externalReferences) ∧
      ('Σ' ∉ other.name.toList ∨
          (front = [] ∨ front.getLast? = some '/') ∧ (back = [] ∨ back.head? = some '/') →
        Text.KeepsWordEnds front other.name.toList back) := by
  refine ⟨Text.lowerWithin_eq_lower_iff front back other.name, fun hkeeps => ?_, ?_⟩
  · have hreferable := isReferable_of_ne hnonempty hdistinct hproject hother hne
    have hnames := mentionsName_of_keepsWordEnds hwritten hapart hkeeps
    refine ⟨resolveProject (knownNames (projects.map Project.name)) project, ?_, ?_, ?_⟩
    · rw [resolve, List.getElem?_map, hproject, Option.map_some]
    · exact (mem_references_iff _ _ _ _).2 ⟨hreferable, mention, hmention, hnames⟩
    · intro hexternal
      have hnone := ((mem_external_iff _ _ _ _).1 hexternal).2 other.name hreferable
      exact Bool.false_ne_true (hnone.symm.trans hnames)
  · rintro (hsigma | ⟨hfront, hback⟩)
    · exact Text.keepsWordEnds_of_not_mem hsigma
    · exact Text.keepsWordEnds_of_slashes _ hfront hback

end Distinct

/-- A project that mentions another one whose name ends in a capital sigma. -/
def capitals (mention : String) : List Project :=
  [{ name := "app", rootPath := ⟨"/ws/app"⟩, mentions := ["react", mention] },
   { name := "ΟΔΟΣ", rootPath := ⟨"/ws/ΟΔΟΣ"⟩ }]

theorem resolve_of_written_capitals :
    (∀ project ∈ capitals "../ΟΔΟΣ/a.js", Text.lower project.name ≠ "") ∧
      ((capitals "../ΟΔΟΣ/a.js").map fun project => Text.lower project.name).Nodup ∧
      "../ΟΔΟΣ/a.js".toList = "../".toList ++ "ΟΔΟΣ".toList ++ "/a.js".toList ∧
      SetsApart "../".toList "/a.js".toList ∧
      Text.KeepsWordEnds "../".toList "ΟΔΟΣ".toList "/a.js".toList ∧
      ∃ resolved, (resolve (capitals "../ΟΔΟΣ/a.js"))[0]? = some resolved ∧
        "ΟΔΟΣ" ∈ resolved.references ∧ "../ΟΔΟΣ/a.js" ∉ resolved.externalReferences := by
  have hnonempty : ∀ project ∈ capitals "../ΟΔΟΣ/a.js", Text.lower project.name ≠ "" := by
    decide +kernel
  have hdistinct :
      ((capitals "../ΟΔΟΣ/a.js").map fun project => Text.lower project.name).Nodup := by
    decide +kernel
  have hwritten : "../ΟΔΟΣ/a.js".toList = "../".toList ++ "ΟΔΟΣ".toList ++ "/a.js".toList := by
    decide +kernel
  have hapart : SetsApart "../".toList "/a.js".toList := by decide +kernel
  obtain ⟨-, hrefers, hslashes⟩ := resolve_of_written hnonempty hdistinct
    (i := 0) (j := 1) rfl rfl (by decide) (by decide) hwritten hapart
  have hkeeps := hslashes (.inr (by decide +kernel))
  exact ⟨hnonempty, hdistinct, hwritten, hapart, hkeeps, hrefers hkeeps⟩

/-- Before a point and more letters the last sigma is not at the end of a word, so the same name
written out is not found. -/
theorem not_refers_capitals :
    (∀ project ∈ capitals "ΟΔΟΣ.config", Text.lower project.name ≠ "") ∧
      ((capitals "ΟΔΟΣ.config").map fun project => Text.lower project.name).Nodup ∧
      "ΟΔΟΣ.config".toList = [] ++ "ΟΔΟΣ".toList ++ ".config".toList ∧
      SetsApart [] ".config".toList ∧
      (resolve (capitals "ΟΔΟΣ.config")).map findings =
        [([], ["react", "ΟΔΟΣ.config"]), ([], [])] := by
  decide +kernel

end CodeSurvey.Resolution
