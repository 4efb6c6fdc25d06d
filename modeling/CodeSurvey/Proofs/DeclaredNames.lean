import CodeSurvey.Proofs.BlockShape
import CodeSurvey.Proofs.PatternSearch

/-!
# Names behind keywords

Names of functions and classes are listed behind their keywords. Matches do not overlap, and a name
may be or end with a keyword; such a keyword is part of the name and declares nothing.

## Key results

- `Pattern.exists_mem_findAll_or_isHidden`: a keyword and a name are found unless the keyword is
  hidden
- `Extraction.mem_functions_iff_and_mem_classes_iff`: when these lists hold the name of a block
-/

namespace CodeSurvey

open Text (byteLength isBlank)

namespace Pattern

/-- A word that a name can end with, and that holds its first character once. -/
def IsKeyword (keyword : List Char) : Prop :=
  ∃ c rest, keyword = c :: rest ∧ c ∉ rest ∧ ∀ d ∈ keyword, continuesName d = true

/-- The keyword at a byte of a text is the end of the name that is found behind an earlier one. -/
def IsHidden (keyword text : List Char) (offset : Nat) : Prop :=
  ∃ front space lead back, text = front ++ (keyword ++ (space ++ (lead ++ (keyword ++ back)))) ∧
    IsGap space ∧ offset = byteLength (front ++ (keyword ++ (space ++ lead))) ∧
    ⟨byteLength front, offset + byteLength keyword, some (String.ofList (lead ++ keyword))⟩ ∈
      (declaration (word keyword)).findAll text

/-! ## Cutting a declaration -/

theorem head?_any_of_isGap {space : List Char} (h : IsGap space) (rest : List Char) :
    (space ++ rest).head?.any continuesName = false :=
  List.head?_any_append_eq_false h.2 (continuesName_of_allBlank h.1) rest

theorem head?_any_of_isName {name : List Char} (h : IsName name) (rest : List Char) :
    (name ++ rest).head?.any isBlank = false :=
  List.head?_any_append_eq_false h.ne_nil (isBlank_of_isName h) rest

/-- White space and a name behind which no name goes on are found in one place only. -/
theorem eq_append_takeWhile {space name back space' name' back' : List Char}
    (h : space ++ (name ++ back) = space' ++ (name' ++ back')) (hspace : IsGap space)
    (hspace' : IsGap space') (hname : IsName name) (hname' : IsName name')
    (hback : back'.head?.any continuesName = false) :
    name' = name ++ back.takeWhile continuesName := by
  obtain ⟨-, hrest⟩ := List.eq_of_append_eq_append_of_run h hspace.1
    (head?_any_of_isName hname back) hspace'.1 (head?_any_of_isName hname' back')
  rw [← List.takeWhile_append_of_head? hname'.all hback, ← hrest,
    List.takeWhile_append_of_pos hname.all]

/-- What a match of a declaration is to the text around it. -/
theorem exists_parts_of_mem_findAll {keyword text : List Char} {found : Match}
    (h : found ∈ (declaration (word keyword)).findAll text) :
    ∃ front space name back, text = front ++ (keyword ++ (space ++ (name ++ back))) ∧
      IsGap space ∧ IsName name ∧ back.head?.any continuesName = false ∧
      found = ⟨byteLength front, byteLength (front ++ (keyword ++ (space ++ name))),
        some (String.ofList name)⟩ := by
  obtain ⟨front, stretch, back, kept, rfl, hdescribes, hstart, hstop, hgroup, hback⟩ :=
    exists_describes_of_mem_findAll_of_lastRun (show _ = some continuesName from rfl) h
  obtain ⟨space, name, hgap, hkeeps⟩ := describes_declaration_iff.1 hdescribes
  rw [hkeeps.group_eq] at hgroup
  rw [hkeeps.stretch_eq, List.append_nil, List.append_assoc] at hstop ⊢
  refine ⟨front, space, name, back, by simp, hgap, hkeeps.isName, hback, ?_⟩
  rw [← hstart, ← hstop, ← hgroup]

theorem start_lt_stop {keyword text : List Char} {found : Match}
    (hfound : found ∈ (declaration (word keyword)).findAll text) : found.start < found.stop := by
  refine start_lt_stop_of_ne_nil (fun h => ?_) hfound
  obtain ⟨space, name, -, hkeeps⟩ := describes_declaration_iff.1 h
  exact hkeeps.stretch_ne_nil

/-- Behind the start of a declaration, the first character of its keyword stands only in the
name. -/
theorem exists_lead_of_mem {c : Char} {rest space name between tail : List Char} (hc : c ∉ rest)
    (hcontinues : continuesName c = true) (hspace : IsGap space)
    (h : rest ++ (space ++ name) = between ++ c :: tail) :
    ∃ lead, between = rest ++ space ++ lead ∧ name = lead ++ c :: tail := by
  have hblank : c ∉ space := hspace.1.not_mem (isBlank_of_continuesName hcontinues)
  refine List.exists_of_append_cons_eq_append
    (show between ++ c :: tail = (rest ++ space) ++ name by rw [List.append_assoc, h]) ?_
  rw [List.mem_append, not_or]
  exact ⟨hc, hblank⟩

section Keyword

variable {keyword text front space name back : List Char}
variable (hkeyword : IsKeyword keyword)

include hkeyword

/-- A keyword that a match of an earlier one runs over is the end of the name of that match. -/
theorem isHidden_of_lt {found : Match} (htext : text = front ++ (keyword ++ (space ++ back)))
    (hspace : IsGap space) (hfound : found ∈ (declaration (word keyword)).findAll text)
    (hstart : found.start < byteLength front) (hstop : byteLength front < found.stop) :
    IsHidden keyword text (byteLength front) := by
  obtain ⟨front', space', name', back', htext', hspace', hname', hback', rfl⟩ :=
    exists_parts_of_mem_findAll hfound
  obtain ⟨c, rest, rfl, hc, hall⟩ := hkeyword
  -- the later keyword starts within the match
  obtain ⟨between, rfl, hbetween⟩ := Text.exists_of_append_eq_append (htext'.symm.trans htext)
    (Nat.le_of_lt hstart)
  obtain ⟨tail, hstretch, htail⟩ := Text.exists_of_append_eq_append
    (show between ++ (c :: rest ++ (space ++ back)) = (c :: rest ++ (space' ++ name')) ++ back' by
      rw [← hbetween]; simp)
    (by simp only [Text.byteLength_append] at hstop ⊢; omega)
  -- what the match runs over begins with the first character of the keyword
  obtain ⟨between, rfl⟩ : ∃ rest, between = c :: rest := by
    cases between with
    | nil => simp at hstart
    | cons d between => exact ⟨between, by rw [(List.cons.inj hbetween).1]⟩
  obtain ⟨tail, rfl⟩ : ∃ rest, tail = c :: rest := by
    cases tail with
    | nil =>
      rw [List.append_nil] at hstretch
      rw [hstretch] at hstop
      exact absurd hstop (Nat.lt_irrefl _)
    | cons d tail => exact ⟨tail, by rw [(List.cons.inj htail).1]⟩
  obtain ⟨lead, rfl, rfl⟩ := exists_lead_of_mem hc (hall c List.mem_cons_self) hspace'
    (List.cons.inj hstretch).2
  -- the name ends where the keyword does
  have hend : c :: tail = c :: rest := by
    rw [← List.takeWhile_append_of_head? (fun d hd => hname'.all d (List.mem_append_right _ hd))
      hback', ← htail, List.takeWhile_append_of_head? hall (head?_any_of_isGap hspace back)]
  rw [hend] at hfound
  refine ⟨front', space', lead, space ++ back, ?_, hspace', by simp, ?_⟩
  · rw [htext]
    simp
  · convert hfound using 2
    simp only [Text.byteLength_append, Text.byteLength_cons]
    omega

/-- Behind a keyword a name is found as far as it goes, unless the keyword is hidden. -/
theorem exists_mem_findAll_or_isHidden
    (htext : text = front ++ (keyword ++ (space ++ (name ++ back)))) (hspace : IsGap space)
    (hname : IsName name) :
    IsHidden keyword text (byteLength front) ∨
      ∃ found ∈ (declaration (word keyword)).findAll text, found.start = byteLength front ∧
        found.group = some (String.ofList (name ++ back.takeWhile continuesName)) := by
  have hdescribes : (declaration (word keyword)).Describes (keyword ++ (space ++ name))
      (some ((keyword ++ space).length, (keyword ++ space).length + name.length)) :=
    describes_declaration_iff.2 ⟨space, name, hspace, by simp, hname, rfl⟩
  obtain ⟨found, hfound, hstart | ⟨hlt, hstop⟩⟩ :=
    exists_mem_findAll_of_describes (show text = front ++ ((keyword ++ (space ++ name)) ++ back) by
      rw [htext]; simp) hdescribes
  · obtain ⟨front', space', name', back', htext', hspace', hname', hback', rfl⟩ :=
      exists_parts_of_mem_findAll hfound
    -- the match starts with this keyword, and its name goes on as far as it can
    obtain ⟨rfl, hrest⟩ := Text.eq_of_append_eq_append (htext.symm.trans htext') hstart.symm
    have heq := eq_append_takeWhile (List.append_cancel_left hrest) hspace hspace' hname hname'
      hback'
    exact .inr ⟨_, hfound, rfl, by rw [heq]⟩
  · exact .inl (isHidden_of_lt hkeyword htext hspace hfound hlt hstop)

/-- No match starts with a hidden keyword. -/
theorem start_ne_of_isHidden {offset : Nat} (h : IsHidden keyword text offset) {found : Match}
    (hfound : found ∈ (declaration (word keyword)).findAll text) : found.start ≠ offset := by
  obtain ⟨front, space, lead, back, -, -, hoffset, hhidden⟩ := h
  have hstop := start_lt_stop hfound
  obtain ⟨c, rest, rfl, -⟩ := hkeyword
  have hpos := c.utf8Size_pos
  simp only [Text.byteLength_append, Text.byteLength_cons] at hoffset
  intro hstart
  -- it would run over the keyword as the match that hides it does
  have hsame : found = _ := eq_of_overlap hfound hhidden (Nat.le_of_eq hstart)
    (hstart ▸ hstop) (by simp only; omega) (by simp only [Text.byteLength_cons]; omega)
  have hfront : found.start = byteLength front := congrArg Match.start hsame
  omega

end Keyword

end Pattern

namespace Block

open Pattern

/-- A block starts with a keyword, white space and its name. -/
structure IsDeclared (keyword text : List Char) (block : Block) (front space back : List Char) :
    Prop where
  text_eq : text = front ++ (keyword ++ (space ++ (block.name.toList ++ back)))
  first_eq : block.span.first = byteLength front
  isGap : IsGap space
  isName : IsName block.name.toList

/-- The name of a class goes on with the word behind which the extended class is named, with no
space between them. -/
def RunsOn (text : List Char) (block : Block) : Prop :=
  ∃ front space back, IsDeclared "class".toList text block front space ("extends".toList ++ back)

/-- The name of a block is found behind another keyword than its own. -/
def IsListedElsewhere (names : Pattern) (text : List Char) (block : Block) : Prop :=
  ∃ found ∈ names.findAll text, found.start ≠ block.span.first ∧ found.group = some block.name

theorem isKeyword_function : IsKeyword "function".toList :=
  ⟨'f', "unction".toList, rfl, by decide +kernel, List.all_eq_true.1 rfl⟩

theorem isKeyword_class : IsKeyword "class".toList :=
  ⟨'c', "lass".toList, rfl, by decide +kernel, List.all_eq_true.1 rfl⟩

/-- When the names behind a keyword hold the name of a block that starts with it. -/
theorem mem_groups_iff {keyword text : List Char} {block : Block} {front space back : List Char}
    (hkeyword : IsKeyword keyword) (h : IsDeclared keyword text block front space back) :
    block.name ∈ (declaration (word keyword)).groups text ↔
      (¬ IsHidden keyword text block.span.first ∧ back.takeWhile continuesName = []) ∨
        block.IsListedElsewhere (declaration (word keyword)) text := by
  have hown := exists_mem_findAll_or_isHidden hkeyword h.text_eq h.isGap h.isName
  rw [← h.first_eq] at hown
  rw [groups, List.mem_filterMap]
  constructor
  · rintro ⟨found, hfound, hgroup⟩
    by_cases hstart : found.start = block.span.first
    · -- the match is that of the keyword of the block
      have hhidden : ¬ IsHidden keyword text block.span.first := fun hhidden =>
        start_ne_of_isHidden hkeyword hhidden hfound hstart
      obtain ⟨own, hmem, hfirst, hname⟩ := hown.resolve_left hhidden
      have hsame : found = own := eq_of_overlap hfound hmem (Nat.le_refl _)
        (start_lt_stop hfound) (by omega)
        (by have := start_lt_stop hmem; omega)
      rw [← hsame, hgroup, Option.some.injEq, ← String.toList_inj, String.toList_ofList] at hname
      exact .inl ⟨hhidden, List.append_right_eq_self.1 hname.symm⟩
    · exact .inr ⟨found, hfound, hstart, hgroup⟩
  · rintro (⟨hhidden, hback⟩ | ⟨found, hfound, -, hgroup⟩)
    · obtain ⟨own, hmem, -, hname⟩ := hown.resolve_left hhidden
      refine ⟨own, hmem, ?_⟩
      rw [hname, hback, List.append_nil, String.ofList_toList]
    · exact ⟨found, hfound, hgroup⟩

/-- A block starts with what its header describes. -/
theorem exists_describes_of_mem_ofKind {limit : Nat} {text : List Char} {kind : BlockKind}
    {block : Block} (h : block ∈ ofKind limit text kind) :
    ∃ front stretch beyond kept, text = front ++ (stretch ++ beyond) ∧
      kind.header.Describes stretch kept ∧ block.span.first = byteLength front ∧
      (kept.map fun span => String.ofList ((stretch.take span.2).drop span.1)) =
        some block.name := by
  obtain ⟨header, hheader, hshaped⟩ :=
    List.exists_of_mem_of_forall₂ (forall₂_isShaped_ofKind limit text kind) h
  obtain ⟨front, stretch, beyond, kept, htext, hdescribes, hstart, -, hgroup⟩ :=
    exists_describes_of_mem_findAll hheader
  exact ⟨front, stretch, beyond, kept, htext, hdescribes, hshaped.first_eq.trans hstart,
    hgroup.symm.trans hshaped.group_eq⟩

/-- Behind white space and a character that no name holds, no name goes on. -/
theorem takeWhile_append_eq_nil {space rest : List Char} (hspace : AllBlank space)
    (hrest : rest.head?.any continuesName = false) :
    (space ++ rest).takeWhile continuesName = [] := by
  refine List.takeWhile_eq_nil_of_head? ?_
  by_cases hempty : space = []
  · rwa [hempty]
  · exact head?_any_of_isGap ⟨hspace, hempty⟩ rest

/-- The block of a function starts with the keyword and its name, which ends there. -/
theorem exists_isDeclared_function {limit : Nat} {text : List Char} {block : Block}
    (h : block ∈ ofKind limit text .function) :
    ∃ front space back, IsDeclared "function".toList text block front space back ∧
      back.takeWhile continuesName = [] := by
  obtain ⟨front, stretch, beyond, kept, rfl, hdescribes, hfirst, hgroup⟩ :=
    exists_describes_of_mem_ofKind h
  obtain ⟨space, name, trail, hspace, htrail, hkeeps⟩ := exists_parts_of_functionHeader hdescribes
  rw [hkeeps.group_eq, Option.some.injEq, ← String.toList_inj, String.toList_ofList] at hgroup
  subst hgroup
  refine ⟨front, space, trail ++ beyond,
    ⟨by simp [hkeeps.stretch_eq], hfirst, hspace, hkeeps.isName⟩, ?_⟩
  obtain ⟨before, parameters, after, hbefore, -, -, rfl⟩ := htrail
  -- the name is followed by white space or the parenthesis
  rw [List.append_assoc]
  exact takeWhile_append_eq_nil hbefore rfl

/-- The block of a class starts with the keyword and its name, which ends there or runs on. -/
theorem exists_isDeclared_class {limit : Nat} {text : List Char} {block : Block}
    (h : block ∈ ofKind limit text .classBody) :
    ∃ front space back, IsDeclared "class".toList text block front space back ∧
      (back.takeWhile continuesName = [] ∨ ∃ rest, back = "extends".toList ++ rest) := by
  obtain ⟨front, stretch, beyond, kept, rfl, hdescribes, hfirst, hgroup⟩ :=
    exists_describes_of_mem_ofKind h
  obtain ⟨space, name, trail, hspace, htrail, hkeeps⟩ := exists_parts_of_classHeader hdescribes
  rw [hkeeps.group_eq, Option.some.injEq, ← String.toList_inj, String.toList_ofList] at hgroup
  subst hgroup
  refine ⟨front, space, trail ++ beyond,
    ⟨by simp [hkeeps.stretch_eq], hfirst, hspace, hkeeps.isName⟩, ?_⟩
  obtain ⟨before, heritage, after, hbefore, hafter, rfl, rfl | ⟨gap, base, -, -, rfl⟩⟩ := htrail
  · -- nothing is extended: white space, then the brace
    have hblank : AllBlank (before ++ after) := List.forall_mem_append.2 ⟨hbefore, hafter⟩
    have hback : before ++ ([] ++ (after ++ ['\x7b'])) ++ beyond =
        (before ++ after) ++ '\x7b' :: beyond := by simp
    exact .inl (hback ▸ takeWhile_append_eq_nil hblank rfl)
  · by_cases hempty : before = []
    · -- without white space the name goes on
      subst hempty
      exact .inr ⟨gap ++ base ++ (after ++ ['\x7b']) ++ beyond, by simp⟩
    · rw [List.append_assoc before]
      exact .inl (List.takeWhile_eq_nil_of_head? (head?_any_of_isGap ⟨hbefore, hempty⟩ _))

/-- The names of functions hold that of a block exactly if the keyword of the block is not hidden or
the name is found elsewhere. -/
theorem mem_groups_functionName_iff {limit : Nat} {text : List Char} {block : Block}
    (h : block ∈ ofKind limit text .function) :
    block.name ∈ functionName.groups text ↔
      ¬ IsHidden "function".toList text block.span.first ∨
        block.IsListedElsewhere functionName text := by
  obtain ⟨front, space, back, hdeclared, hback⟩ := exists_isDeclared_function h
  have hiff := mem_groups_iff isKeyword_function hdeclared
  rwa [and_iff_left hback] at hiff

/-- The names of classes hold that of a block exactly if the keyword of the block is not hidden and
its name does not run on, or the name is found elsewhere. -/
theorem mem_groups_className_iff {limit : Nat} {text : List Char} {block : Block}
    (h : block ∈ ofKind limit text .classBody) :
    block.name ∈ className.groups text ↔
      (¬ IsHidden "class".toList text block.span.first ∧ ¬ block.RunsOn text) ∨
        block.IsListedElsewhere className text := by
  obtain ⟨front, space, back, hdeclared, hback⟩ := exists_isDeclared_class h
  by_cases hruns : block.RunsOn text
  · -- what is found behind the keyword is longer than the name of the block
    obtain ⟨front', space', back', hlonger⟩ := id hruns
    have hne : ("extends".toList ++ back').takeWhile continuesName ≠ [] := List.cons_ne_nil 'e' _
    have hiff := mem_groups_iff isKeyword_class hlonger
    simp only [hne, and_false, false_or] at hiff
    simpa only [hruns, not_true_eq_false, and_false, false_or]
  · have hends := hback.resolve_right fun ⟨rest, hrest⟩ =>
      hruns ⟨front, space, rest, hrest ▸ hdeclared⟩
    have hiff := mem_groups_iff isKeyword_class hdeclared
    rw [and_iff_left hends] at hiff
    rwa [and_iff_left hruns]

end Block

namespace Extraction

/-- The list of functions holds the name of the block of a function exactly if its keyword is not
hidden or the name is found elsewhere; the list of classes that of a class, if its name does not run
on either. -/
theorem mem_functions_iff_and_mem_classes_iff (limit : Nat) (source : String) :
    (∀ block ∈ (ofText limit source).blocks, block.kind = .function →
      (block.name ∈ (ofText limit source).functions ↔
        ¬ Pattern.IsHidden "function".toList source.toList block.span.first ∨
          block.IsListedElsewhere Pattern.functionName source.toList)) ∧
    ∀ block ∈ (ofText limit source).blocks, block.kind = .classBody →
      (block.name ∈ (ofText limit source).classes ↔
        (¬ Pattern.IsHidden "class".toList source.toList block.span.first ∧
            ¬ block.RunsOn source.toList) ∨
          block.IsListedElsewhere Pattern.className source.toList) :=
  ⟨fun _ hblock hkind => Block.mem_groups_functionName_iff (Block.mem_ofKind_iff.2 ⟨hblock, hkind⟩),
    fun _ hblock hkind => Block.mem_groups_className_iff (Block.mem_ofKind_iff.2 ⟨hblock, hkind⟩)⟩

/-- A comment that ends with the keyword hides the one behind it, and the name of a class may run
on. -/
theorem not_mem_functions_comment :
    (∃ block ∈ (ofText 10000 "// the main function\nfunction f() \x7b\x7d").blocks,
      block.kind = .function ∧
      block.name ∉ (ofText 10000 "// the main function\nfunction f() \x7b\x7d").functions) ∧
    ∃ block ∈ (ofText 10000 "class Fooextends Bar \x7b\x7d").blocks, block.kind = .classBody ∧
      block.name ∉ (ofText 10000 "class Fooextends Bar \x7b\x7d").classes := by
  constructor <;> decide +kernel

end Extraction

end CodeSurvey
