import CodeSurvey.Proofs.BlockBodies
import CodeSurvey.Proofs.ListLemmas

/-!
# How blocks of one kind lie

Of two blocks of one kind, the one whose header comes first ends in front of the other one, or goes
on behind its end. There is one exception: braces are counted wherever they stand, so a closing
brace in a header, in front of its first opening brace, can end a block that is open there. The two
blocks then overlap. The header of a class holds no closing brace; parameters of a function can, and
the header of a method may reach over the end of the method in front of it.

## Key results

- `exists_lead_of_ofHeader`: what a block is to the text around it
- `apartOrNested_or_endsInLead` / `not_apartOrNested_of_endsInLead`: how two blocks lie
- `pairwise_apartOrNested_iff`: when blocks of one kind are apart or nested
-/

namespace CodeSurvey

open Text (Cursor byteLength)

namespace Span

/-- Two spans have no byte in common, or one of them lies within the other. -/
def ApartOrNested (a b : Span) : Prop :=
  a.last < b.first ∨ b.last < a.first ∨ (a.first ≤ b.first ∧ b.last ≤ a.last) ∨
    (b.first ≤ a.first ∧ a.last ≤ b.last)

instance (a b : Span) : Decidable (ApartOrNested a b) :=
  inferInstanceAs (Decidable (_ ∨ _ ∨ _ ∨ _))

end Span

namespace Block

/-- A block ends on a closing brace between the start of another block and the first opening brace
behind that start. -/
def EndsInLead (text : List Char) (block other : Block) : Prop :=
  ∃ front lead back, text = front ++ lead ++ '\x7d' :: back ∧ '\x7b' ∉ lead ∧
    other.span.first = byteLength front ∧ block.span.last = byteLength (front ++ lead)

/-- What the block of a header is to the text around it: it starts with the header and ends with the
first brace that is opened behind its start, which the header holds. -/
structure HasLead (text : List Char) (header : Match) (block : Block)
    (front lead back : List Char) : Prop where
  text_eq : text = front ++ (lead ++ '\x7b' :: back)
  not_mem : '\x7b' ∉ lead
  first_eq : block.span.first = byteLength front
  start_eq : header.start = byteLength front
  lt_stop : byteLength (front ++ lead) < header.stop
  last_eq : block.span.last = Brace.closing ⟨byteLength (front ++ lead), '\x7b' :: back⟩

/-- A header that is found in a text starts its block, and that of a class holds no closing
brace. -/
theorem exists_lead_of_ofHeader {limit : Nat} {text : List Char} {kind : BlockKind} {header : Match}
    {block : Block} (hheader : header ∈ kind.header.findAll text)
    (hblock : ((Cursor.seek text header.start).bind fun place =>
      (Brace.blockSpan text header.start).bind (ofHeader limit kind header place)) = some block) :
    ∃ front lead back, HasLead text header block front lead back ∧
      (kind = .classBody → '\x7d' ∉ lead) := by
  obtain ⟨front, stretch, beyond, kept, htext, hdescribes, hstart, hstop, -⟩ :=
    Pattern.exists_describes_of_mem_findAll hheader
  obtain ⟨inner, rfl, -⟩ := BlockKind.exists_inner_of_header hdescribes
  -- the header holds a brace, so it holds a first one
  obtain ⟨lead, later, hinner, hlead⟩ :=
    List.eq_append_cons_of_mem (show '\x7b' ∈ inner ++ ['\x7b'] by simp)
  rw [hinner] at htext hstop hdescribes
  rw [List.append_assoc, List.cons_append] at htext
  -- the span that is found goes to the end of the block that this brace opens
  simp only [Option.bind_eq_some_iff, ofHeader, Option.map_eq_some_iff] at hblock
  obtain ⟨place, -, span, hspan, name, -, rfl⟩ := hblock
  rw [htext, hstart, Brace.blockSpan, Cursor.seek_append, Option.bind_some, Brace.spanAt,
    Brace.openFrom_append hlead, Option.map_some, ← Text.byteLength_append] at hspan
  obtain rfl := Option.some.inj hspan
  refine ⟨front, lead, later ++ beyond, ⟨htext, hlead, rfl, hstart, ?_, rfl⟩, ?_⟩
  · have hpos := Char.utf8Size_pos '\x7b'
    simp only [hstop, Text.byteLength_append, Text.byteLength_cons]
    omega
  · rintro rfl hmem
    have havoids : '\x7d' ∉ lead ++ '\x7b' :: later :=
      Pattern.not_mem_of_avoids (by decide +kernel) hdescribes
    exact havoids (List.mem_append_left _ hmem)

section TwoBlocks

variable {text : List Char} {header other : Match} {block later : Block}
variable {front lead back front' lead' back' : List Char}
variable (hblock : HasLead text header block front lead back)
variable (hlater : HasLead text other later front' lead' back')

include hblock hlater

/-- A header behind another one starts behind the brace that opens the block of that one. -/
theorem exists_between (hle : header.stop ≤ other.start) :
    ∃ between, front' = front ++ lead ++ '\x7b' :: between ∧
      back = between ++ lead' ++ '\x7b' :: back' := by
  have hsize : Char.utf8Size '\x7b' = 1 := rfl
  have hlt := hblock.lt_stop
  have hstart := hlater.start_eq
  have htext : (front ++ lead ++ ['\x7b']) ++ back = front' ++ (lead' ++ '\x7b' :: back') := by
    rw [← hlater.text_eq, hblock.text_eq]
    simp
  have hlength : byteLength (front ++ lead ++ ['\x7b']) ≤ byteLength front' := by
    rw [Text.byteLength_append, Text.byteLength_cons, hsize]
    show byteLength (front ++ lead) + 1 ≤ _
    omega
  obtain ⟨between, hfront, hback⟩ := Text.exists_of_append_eq_append htext hlength
  exact ⟨between, by simpa using hfront, by simpa using hback⟩

theorem first_lt_first (hle : header.stop ≤ other.start) : block.span.first < later.span.first := by
  have hlt := hblock.lt_stop
  have hstart := hlater.start_eq
  rw [Text.byteLength_append] at hlt
  rw [hblock.first_eq, hlater.first_eq]
  omega

/-- A block whose header comes behind that of another one lies behind that block or within it,
unless that block ends in its lead. -/
theorem apartOrNested_or_endsInLead (hle : header.stop ≤ other.start) :
    block.span.ApartOrNested later.span ∨ EndsInLead text block later := by
  have hsize : Char.utf8Size '\x7b' = 1 := rfl
  have hfirst := first_lt_first hblock hlater hle
  obtain ⟨between, rfl, rfl⟩ := exists_between hblock hlater hle
  have hlast := hblock.last_eq
  have hlast' := hlater.last_eq
  have hfirst' := hlater.first_eq
  have hopening : byteLength (front ++ lead ++ '\x7b' :: between ++ lead') =
      byteLength (front ++ lead) + 1 + byteLength (between ++ lead') := by
    simp only [Text.byteLength_append, Text.byteLength_cons, hsize]
    omega
  have hstart : byteLength (front ++ lead ++ '\x7b' :: between) =
      byteLength (front ++ lead) + 1 + byteLength between := by
    simp only [Text.byteLength_append, Text.byteLength_cons, hsize]
    omega
  rw [hopening] at hlast'
  rcases Brace.closing_cases (byteLength (front ++ lead)) (between ++ lead') back' with
    hlt | hunclosed | ⟨body, rest, hbody, hclosed⟩
  · -- the later block is closed first
    exact Or.inl (Or.inr (Or.inr (Or.inl ⟨by omega, by omega⟩)))
  · -- nothing closes the earlier block
    exact Or.inl (Or.inl (by omega))
  · rcases List.append_eq_append_iff.1 hbody with ⟨gap, rfl, hlead⟩ | ⟨gap, rfl, hrest⟩
    · -- the earlier block is closed in the lead of the later one
      refine Or.inr ⟨_, gap, rest ++ '\x7b' :: back', ?_, ?_, hfirst', ?_⟩
      · rw [hblock.text_eq, hlead]
        simp
      · intro hmem
        exact hlater.not_mem (hlead ▸ List.mem_append_left _ hmem)
      · rw [hlast, hclosed, Text.byteLength_append (_ ++ _), hstart, Text.byteLength_append between]
        omega
    · -- it is closed in front of the later one, or where that one starts
      cases gap with
      | nil =>
        refine Or.inr ⟨_, [], rest ++ '\x7b' :: back', ?_, by simp, hfirst', ?_⟩
        · rw [hblock.text_eq, show lead' = '\x7d' :: rest from hrest.symm]
          simp
        · rw [hlast, hclosed, List.append_nil, hstart, List.append_nil]
      | cons c gap =>
        have hpos := c.utf8Size_pos
        rw [Text.byteLength_append body, Text.byteLength_cons] at hstart
        exact Or.inl (Or.inl (by omega))

omit hblock in
/-- The brace on which a block ends in the lead of another one stands in its header. -/
theorem exists_lead_of_endsInLead (hends : EndsInLead text block later) :
    ∃ before rest, lead' = before ++ '\x7d' :: rest ∧
      block.span.last = byteLength (front' ++ before) := by
  obtain ⟨start, before, beyond, htext, hbefore, hstart, hlast⟩ := hends
  -- both describe the text behind the start of the later block
  have hsame : start ++ (before ++ '\x7d' :: beyond) = front' ++ (lead' ++ '\x7b' :: back') := by
    rw [← hlater.text_eq, htext, List.append_assoc]
  obtain ⟨rfl, hrest⟩ := Text.eq_of_append_eq_append hsame (hstart.symm.trans hlater.first_eq)
  -- the first opening brace stands behind the closing one
  obtain ⟨rest, rfl, -⟩ := List.exists_of_append_cons_eq_append
    (show lead' ++ '\x7b' :: back' = (before ++ ['\x7d']) ++ beyond by simp [← hrest])
    (by simp [hbefore])
  exact ⟨before, rest, by simp, hlast⟩

/-- A block that ends in the lead of a later one overlaps it. -/
theorem not_apartOrNested_of_endsInLead (hle : header.stop ≤ other.start)
    (hends : EndsInLead text block later) : ¬ block.span.ApartOrNested later.span := by
  have hfirst := first_lt_first hblock hlater hle
  obtain ⟨before, rest, rfl, hlast⟩ := exists_lead_of_endsInLead hlater hends
  have hend := Brace.le_closing (byteLength (front' ++ (before ++ '\x7d' :: rest))) back'
  have hpos := Char.utf8Size_pos '\x7d'
  have hstart := hlater.first_eq
  rw [← hlater.last_eq] at hend
  simp only [Text.byteLength_append, Text.byteLength_cons] at hend hlast
  rw [Span.ApartOrNested]
  omega

end TwoBlocks

/-- The blocks of one kind among all blocks of a text. -/
theorem filter_kind_extract (limit : Nat) (text : List Char) (kind : BlockKind) :
    ((extract limit text).filter fun block => block.kind == kind) = ofKind limit text kind := by
  have hkinds : ∀ other, ((ofKind limit text other).filter fun block => block.kind == kind) =
      if other = kind then ofKind limit text kind else [] := by
    intro other
    split
    · rename_i heq
      subst heq
      exact List.filter_eq_self.2 fun block hblock => beq_iff_eq.2 (kind_of_mem_ofKind hblock)
    · rename_i hne
      refine List.filter_eq_nil_iff.2 fun block hblock heq => hne ?_
      rw [← kind_of_mem_ofKind hblock, beq_iff_eq.1 heq]
  rw [extract, List.filter_flatMap]
  simp only [hkinds]
  cases kind <;> simp [BlockKind.all]

/-- The blocks of a text of one kind come in the order of their starts. Two of them are apart or
nested exactly if the earlier one does not end in the lead of the later one, and always if they are
classes. -/
theorem pairwise_apartOrNested_iff (limit : Nat) (text : List Char) (kind : BlockKind) :
    ((extract limit text).filter fun block => block.kind == kind).Pairwise fun block later =>
      block.span.first < later.span.first ∧
      (block.span.ApartOrNested later.span ↔ ¬ EndsInLead text block later) ∧
      (kind = .classBody → block.span.ApartOrNested later.span) := by
  rw [filter_kind_extract, ofKind_eq_filterMap, List.pairwise_filterMap]
  refine (Pattern.pairwise_findAll kind.header text).imp_of_mem
    fun {header other} hheader hother hle block hblock later hlater => ?_
  obtain ⟨front, lead, back, hblock, -⟩ := exists_lead_of_ofHeader hheader hblock
  obtain ⟨front', lead', back', hlater, hclass⟩ := exists_lead_of_ofHeader hother hlater
  have hcases := apartOrNested_or_endsInLead hblock hlater hle
  have hnot := not_apartOrNested_of_endsInLead hblock hlater hle
  refine ⟨first_lt_first hblock hlater hle, ⟨fun happart hends => hnot hends happart,
    hcases.resolve_right⟩, fun hkind => hcases.resolve_right fun hends => ?_⟩
  obtain ⟨before, rest, hlead, -⟩ := exists_lead_of_endsInLead hlater hends
  exact hclass hkind (hlead ▸ List.mem_append_right _ List.mem_cons_self)

/-- The header that starts with the last line of a method reaches over the end of this method to the
next one, so the block of that header overlaps the one of the method. -/
theorem not_apartOrNested_overrun :
    BlockKind.method.header.findAll
        "\n  f() \x7b\n    a();\n    b(1)\n  \x7d\n  g() \x7b\n  \x7d\n".toList =
        [⟨0, 8, some "f"⟩, ⟨17, 38, some "b"⟩] ∧
      ofKind 10000
        "\n  f() \x7b\n    a();\n    b(1)\n  \x7d\n  g() \x7b\n  \x7d\n".toList .method =
        [⟨"f", .method, "f() \x7b a(); b(1) \x7d", ⟨0, 29⟩⟩,
          ⟨"b", .method, "b(1) \x7d g() \x7b \x7d", ⟨17, 41⟩⟩] ∧
      ¬ (⟨0, 29⟩ : Span).ApartOrNested ⟨17, 41⟩ := by
  refine ⟨by decide +kernel, by decide +kernel, by decide⟩

end Block

end CodeSurvey
