import CodeSurvey.Proofs.BlockShape
import CodeSurvey.Proofs.PatternSearch

/-!
# Lines that read like methods

A line with a name, arguments in parentheses and an opening brace at its end reads like the header
of a method. Parameters may hold line breaks and parentheses, so the header that starts with an
earlier line can reach over such a line; the line is then part of that header and opens no block of
its own.

## Key results

- `MethodLine.exists_reachesOver`: one header reaches over the line
- `MethodLine.ReachesOver.group_eq_of_not_mem`: the name of a header with the parameters of the line
- `MethodLine.exists_reachesOver_reports_iff`: when the line is reported
-/

namespace CodeSurvey

open Text (byteLength isBlank)
open Pattern (AllBlank IsGap IsName continuesName)

namespace Block

/-- The first brace behind the start of a block stands at a byte. -/
def OpensAt (text : List Char) (block : Block) (opening : Nat) : Prop :=
  ∃ front lead back, text = front ++ (lead ++ '\x7b' :: back) ∧ '\x7b' ∉ lead ∧
    block.span.first = byteLength front ∧ opening = byteLength (front ++ lead)

end Block

namespace Extraction

/-- A method is listed, and a block of its name starts in front of a place and opens at a brace. -/
structure Reports (extraction : Extraction) (text : List Char) (name : String)
    (place opening : Nat) : Prop where
  mem_methods : name ∈ extraction.methods
  exists_block : ∃ block ∈ extraction.blocks, block.kind = .method ∧ block.name = name ∧
    block.span.first ≤ place ∧ block.OpensAt text opening

end Extraction

/-- A line that reads like the header of a method, up to its brace. Its arguments hold neither a
semicolon nor an opening brace. -/
structure MethodLine where
  indent : List Char
  name : List Char
  arguments : List Char
  space : List Char
  allBlank_indent : AllBlank indent
  isName : IsName name
  semicolon_not_mem : ';' ∉ arguments
  brace_not_mem : '\x7b' ∉ arguments
  allBlank_space : AllBlank space

namespace MethodLine

/-- The line break in front of the line and the line up to its brace. -/
def lead (line : MethodLine) : List Char :=
  '\n' :: (line.indent ++ (line.name ++ '(' :: (line.arguments ++ ')' :: line.space)))

/-- A text with the line in it. -/
def within (line : MethodLine) (front back : List Char) : List Char :=
  front ++ (line.lead ++ '\x7b' :: back)

/-- The byte at which the name of the line starts. -/
def place (line : MethodLine) (front : List Char) : Nat :=
  byteLength (front ++ '\n' :: line.indent)

/-- The byte of the brace of the line. -/
def opening (line : MethodLine) (front : List Char) : Nat :=
  byteLength (front ++ line.lead)

theorem place_le_opening (line : MethodLine) (front : List Char) :
    byteLength front ≤ line.place front ∧ line.place front ≤ line.opening front := by
  simp only [place, opening, lead, Text.byteLength_append, Text.byteLength_cons]
  omega

theorem brace_not_mem_lead (line : MethodLine) : '\x7b' ∉ line.lead := by
  have hindent := line.allBlank_indent.not_mem (c := '\x7b') (by decide)
  have hname := line.isName.not_mem (c := '\x7b') (by decide)
  have hspace := line.allBlank_space.not_mem (c := '\x7b') (by decide)
  simp [lead, hindent, hname, hspace, line.brace_not_mem]

theorem describes_lead (line : MethodLine) :
    ∃ kept, Pattern.methodHeader.Describes (line.lead ++ ['\x7b']) kept := by
  refine ⟨some _, Pattern.describes_methodHeader_iff.2 ⟨line.indent, line.name,
    '(' :: (line.arguments ++ ')' :: (line.space ++ ['\x7b'])), line.allBlank_indent, ?_, ?_,
    line.isName, rfl⟩⟩
  · exact ⟨[], line.arguments, line.space, by simp [AllBlank], line.semicolon_not_mem,
      line.allBlank_space, rfl⟩
  · simp [lead]

/-- A header that reaches over a line starts with it or with an earlier line. -/
structure ReachesOver (line : MethodLine) (front back : List Char) (header : Match)
    (before between : List Char) : Prop where
  mem : header ∈ Pattern.methodHeader.findAll (line.within front back)
  front_eq : front = before ++ between
  start_eq : header.start = byteLength before
  lt_stop : line.opening front < header.stop

/-- A header ends on a brace. -/
theorem exists_inner_of_mem_findAll {text : List Char} {header : Match}
    (h : header ∈ Pattern.methodHeader.findAll text) :
    ∃ front inner back, text = front ++ (inner ++ '\x7b' :: back) ∧
      header.start = byteLength front ∧ header.stop = byteLength (front ++ inner) + 1 := by
  obtain ⟨front, stretch, back, kept, rfl, hdescribes, hstart, hstop, -⟩ :=
    Pattern.exists_describes_of_mem_findAll h
  obtain ⟨inner, rfl, -⟩ := @BlockKind.exists_inner_of_header .method _ _ hdescribes
  refine ⟨front, inner, back, by simp, hstart, ?_⟩
  rw [hstop, ← List.append_assoc, Text.byteLength_append]
  rfl

/-- The first brace behind a place is not behind another one. -/
theorem opening_le {front lead back front' back' : List Char}
    (h : front ++ (lead ++ '\x7b' :: back) = front' ++ '\x7b' :: back') (hlead : '\x7b' ∉ lead)
    (hle : byteLength front ≤ byteLength front') :
    byteLength (front ++ lead) ≤ byteLength front' := by
  obtain ⟨between, rfl, hbetween⟩ := Text.exists_of_append_eq_append h hle
  obtain ⟨more, rfl, -⟩ := List.exists_of_append_cons_eq_append hbetween.symm hlead
  simp only [Text.byteLength_append]
  omega

/-- A name at the end of a text, behind white space, is the last one there is. -/
theorem name_eq_of_append_eq {gap name space front gap' name' : List Char}
    (h : gap ++ (name ++ space) = front ++ (gap' ++ name')) (hgap : IsGap gap) (hgap' : IsGap gap')
    (hspace : AllBlank space) (hname : IsName name) (hname' : IsName name') : name = name' := by
  -- read from its end, the text starts with the name on both sides
  have hreverse : space.reverse ++ (name.reverse ++ (gap.reverse ++ [])) =
      [] ++ (name'.reverse ++ (gap'.reverse ++ front.reverse)) := by
    simpa using congrArg List.reverse h
  have hname_head : ∀ {name : List Char}, IsName name → ∀ rest,
      (name.reverse ++ rest).head?.any isBlank = false := fun hname rest =>
    List.head?_any_append_eq_false (by simpa using hname.ne_nil)
      (fun c hc => Pattern.isBlank_of_isName hname c (List.mem_reverse.1 hc)) rest
  have hgap_head : ∀ {gap : List Char}, IsGap gap → ∀ rest,
      (gap.reverse ++ rest).head?.any continuesName = false := fun hgap rest =>
    List.head?_any_append_eq_false (by simpa using hgap.2)
      (fun c hc => Pattern.continuesName_of_allBlank hgap.1 c (List.mem_reverse.1 hc)) rest
  obtain ⟨-, hrest⟩ := List.eq_of_append_eq_append_of_run hreverse
    (fun c hc => hspace c (List.mem_reverse.1 hc)) (hname_head hname _) (by simp)
    (hname_head hname' _)
  obtain ⟨hsame, -⟩ := List.eq_of_append_eq_append_of_run hrest
    (fun c hc => hname.all c (List.mem_reverse.1 hc)) (hgap_head hgap _)
    (fun c hc => hname'.all c (List.mem_reverse.1 hc)) (hgap_head hgap' _)
  exact List.reverse_injective hsame

/-- One header reaches over the line. -/
theorem exists_reachesOver (line : MethodLine) (front back : List Char) :
    ∃ header before between, line.ReachesOver front back header before between := by
  obtain ⟨kept, hdescribes⟩ := line.describes_lead
  obtain ⟨header, hheader, before, between, hfront, hstart, hlt⟩ :=
    Pattern.exists_mem_findAll_reaching (fun h => by
      obtain ⟨indent, name, trail, -, -, hkeeps⟩ := Pattern.describes_methodHeader_iff.1 h
      exact hkeeps.stretch_ne_nil)
      (show line.within front back = front ++ ((line.lead ++ ['\x7b']) ++ back) by simp [within])
      hdescribes
  refine ⟨header, before, between, hheader, hfront, hstart, ?_⟩
  -- the header ends on a brace behind the start of the line
  obtain ⟨start, inner, beyond, htext, -, hstop⟩ := exists_inner_of_mem_findAll hheader
  rw [← List.append_assoc] at htext
  have hle := opening_le htext line.brace_not_mem_lead (by omega)
  rw [hstop]
  exact Nat.lt_succ_of_le hle

namespace ReachesOver

variable {line : MethodLine} {front back before between : List Char} {header : Match}
variable (h : line.ReachesOver front back header before between)

include h

/-- A header that takes its parameters from the line has the name of the line, and no brace stands
between the start of the header and the line. -/
theorem group_eq_of_not_mem (hbetween : '(' ∉ between) :
    header.group = some (String.ofList line.name) ∧ '\x7b' ∉ between := by
  obtain ⟨front', stretch, beyond, kept, htext, hdescribes, hstart, -, hgroup⟩ :=
    Pattern.exists_describes_of_mem_findAll h.mem
  obtain ⟨indent, name, trail, hindent, ⟨space, parameters, space', hspace, -, -, rfl⟩, hkeeps⟩ :=
    Pattern.describes_methodHeader_iff.1 hdescribes
  rw [hgroup, hkeeps.group_eq]
  rw [within, h.front_eq, List.append_assoc] at htext
  obtain ⟨-, hrest⟩ := Text.eq_of_append_eq_append htext (h.start_eq.symm.trans hstart)
  -- the first parenthesis is that of the line
  have hcut : ('\n' :: indent ++ (name ++ space)) ++ '(' ::
        (parameters ++ ')' :: (space' ++ ['\x7b']) ++ beyond) =
      (between ++ ('\n' :: line.indent ++ line.name)) ++ '(' ::
        (line.arguments ++ ')' :: line.space ++ '\x7b' :: back) := by
    rw [hkeeps.stretch_eq] at hrest
    simpa [lead] using hrest.symm
  have hgap := hindent.isGap_break
  have hline := line.allBlank_indent.isGap_break
  have hlead : '(' ∉ '\n' :: line.indent ++ (line.name ++ []) :=
    Pattern.not_mem_around_name hline.1 line.isName (List.forall_mem_nil _) (by decide) (by decide)
  rw [List.append_nil] at hlead
  obtain ⟨hsame, -⟩ := List.eq_of_append_cons_eq_append_cons hcut
    (Pattern.not_mem_around_name hgap.1 hkeeps.isName hspace (by decide) (by decide))
    (by rw [List.mem_append, not_or]; exact ⟨hbetween, hlead⟩)
  have hbrace : '\x7b' ∉ '\n' :: indent ++ (name ++ space) :=
    Pattern.not_mem_around_name hgap.1 hkeeps.isName hspace (by decide) (by decide)
  refine ⟨?_, fun hmem => hbrace (hsame ▸ List.mem_append_left _ hmem)⟩
  rw [name_eq_of_append_eq hsame hgap hline hspace hkeeps.isName line.isName]

/-- A header does not reach over semicolons, so it takes its parameters from the line if a semicolon
stands behind each parenthesis in front of the line. -/
theorem not_mem_of_semicolons
    (hsemicolons : ∀ first rest, front = first ++ '(' :: rest → ';' ∈ rest) : '(' ∉ between := by
  intro hmem
  obtain ⟨first, rest, rfl⟩ := List.append_of_mem hmem
  have hrest := hsemicolons (before ++ first) rest (by simp [h.front_eq])
  obtain ⟨front', stretch, beyond, kept, htext, hdescribes, hstart, hstop, -⟩ :=
    Pattern.exists_describes_of_mem_findAll h.mem
  have hnot : ';' ∉ stretch := Pattern.not_mem_of_avoids (by decide +kernel) hdescribes
  -- what stands between the start of the header and the line is part of the header
  rw [within, h.front_eq, List.append_assoc] at htext
  obtain ⟨rfl, hcut⟩ := Text.eq_of_append_eq_append htext (h.start_eq.symm.trans hstart)
  have hle : byteLength (first ++ '(' :: rest) ≤ byteLength stretch := by
    have hlt := h.lt_stop
    rw [hstop, opening, h.front_eq, List.append_assoc] at hlt
    simp only [Text.byteLength_append] at hlt ⊢
    omega
  obtain ⟨more, rfl, -⟩ := Text.exists_of_append_eq_append hcut hle
  exact hnot (List.mem_append_left _ (List.mem_append_right _ (List.mem_cons_of_mem _ hrest)))

/-- The block of the header opens at the brace of the line exactly if no brace stands in front of
it. -/
theorem opensAt_iff {block : Block} (hfirst : block.span.first = header.start) :
    block.OpensAt (line.within front back) (line.opening front) ↔ '\x7b' ∉ between := by
  constructor
  · rintro ⟨start, lead, rest, htext, hlead, hstart, hopens⟩
    have hcut : (front ++ line.lead) ++ '\x7b' :: back = (start ++ lead) ++ '\x7b' :: rest := by
      simpa [within] using htext
    obtain ⟨hbrace, -⟩ := Text.eq_of_append_eq_append hcut hopens
    rw [h.front_eq, List.append_assoc] at hbrace
    obtain ⟨-, rfl⟩ := Text.eq_of_append_eq_append hbrace
      (h.start_eq.symm.trans (hfirst.symm.trans hstart))
    exact fun hmem => hlead (List.mem_append_left _ hmem)
  · intro hbrace
    refine ⟨before, between ++ line.lead, back, ?_, ?_, hfirst.trans h.start_eq, ?_⟩
    · rw [within, h.front_eq, List.append_assoc, List.append_assoc]
    · rw [List.mem_append, not_or]
      exact ⟨hbrace, line.brace_not_mem_lead⟩
    · rw [opening, h.front_eq, List.append_assoc]

theorem start_le : header.start ≤ byteLength front := by
  rw [h.start_eq, h.front_eq, Text.byteLength_append]
  omega

/-- A header whose block opens at the brace of the line reaches over the line. -/
theorem eq_of_opensAt {other : Match} {block : Block}
    (hother : other ∈ Pattern.methodHeader.findAll (line.within front back))
    (hfirst : block.span.first = other.start) (hplace : block.span.first ≤ line.place front)
    (hopens : block.OpensAt (line.within front back) (line.opening front)) : header = other := by
  obtain ⟨start, lead, rest, htext, hlead, hstart, hopening⟩ := hopens
  obtain ⟨start', inner, rest', htext', hstart', hstop'⟩ := exists_inner_of_mem_findAll hother
  have hle := line.place_le_opening front
  have hbefore := h.start_le
  have hsum := Text.byteLength_append start' inner
  -- the brace on which the header ends is not in front of the first one
  have hinner := opening_le (htext.symm.trans (by rw [htext', List.append_assoc])) hlead
    (show byteLength start ≤ byteLength (start' ++ inner) by omega)
  exact Pattern.eq_of_overlap h.mem hother (by omega) h.lt_stop (by omega) (by omega)

/-- A line is reported exactly if the header that reaches over it has the name of the line and no
brace in front of it. -/
theorem reports_iff (limit : Nat) :
    (Extraction.ofText limit (String.ofList (line.within front back))).Reports
        (line.within front back) (String.ofList line.name) (line.place front) (line.opening front) ↔
      header.group = some (String.ofList line.name) ∧ '\x7b' ∉ between := by
  have hshaped := Block.forall₂_isShaped_ofKind limit (line.within front back) .method
  constructor
  · rintro ⟨-, block, hblock, hkind, hname, hplace, hopens⟩
    rw [Extraction.ofText, String.toList_ofList] at hblock
    obtain ⟨other, hother, hshape⟩ :=
      List.exists_of_mem_of_forall₂ hshaped (Block.mem_ofKind_iff.2 ⟨hblock, hkind⟩)
    -- no other header can be that of the block
    obtain rfl := h.eq_of_opensAt hother hshape.first_eq hplace hopens
    exact ⟨by rw [hshape.group_eq, hname], (h.opensAt_iff hshape.first_eq).1 hopens⟩
  · rintro ⟨hgroup, hbrace⟩
    obtain ⟨block, hblock, hshape⟩ := List.exists_of_mem_of_forall₂ hshaped.flip h.mem
    have hname : block.name = String.ofList line.name :=
      Option.some.inj (hshape.group_eq.symm.trans hgroup)
    obtain ⟨hextract, hkind⟩ := Block.mem_ofKind_iff.1 hblock
    rw [← @String.toList_ofList (line.within front back)] at hextract
    have hplace : block.span.first ≤ line.place front := by
      rw [hshape.first_eq]
      exact Nat.le_trans h.start_le (line.place_le_opening front).1
    exact ⟨(Extraction.mem_methods_iff _ _ _).2 ⟨block, hextract, hkind, hname⟩, block, hextract,
      hkind, hname, hplace, (h.opensAt_iff hshape.first_eq).2 hbrace⟩

end ReachesOver

/-- One header reaches over a line that reads like the header of a method. The line is reported
exactly if this header has its name and no brace stands in front of it, so whenever the header takes
its parameters from the line, or a semicolon stands behind each parenthesis in front of the line. -/
theorem exists_reachesOver_reports_iff (limit : Nat) (line : MethodLine) (front back : List Char) :
    ∃ header before between, line.ReachesOver front back header before between ∧
      ((Extraction.ofText limit (String.ofList (line.within front back))).Reports
          (line.within front back) (String.ofList line.name) (line.place front)
          (line.opening front) ↔
        header.group = some (String.ofList line.name) ∧ '\x7b' ∉ between) ∧
      (('(' ∉ between ∨ ∀ first rest, front = first ++ '(' :: rest → ';' ∈ rest) →
        (Extraction.ofText limit (String.ofList (line.within front back))).Reports
          (line.within front back) (String.ofList line.name) (line.place front)
          (line.opening front)) := by
  obtain ⟨header, before, between, h⟩ := exists_reachesOver line front back
  have hiff := h.reports_iff limit
  refine ⟨header, before, between, h, hiff, ?_⟩
  rintro (hbetween | hsemicolons)
  · exact hiff.2 (h.group_eq_of_not_mem hbetween)
  · exact hiff.2 (h.group_eq_of_not_mem (h.not_mem_of_semicolons hsemicolons))

/-- Of two methods of a class the second one is not listed if no semicolon stands in the first. -/
theorem not_mem_methods_second :
    ∃ (line : MethodLine) (front back : List Char),
      line.within front back =
          "class A \x7b\n  f() \x7b\n  \x7d\n  g() \x7b\n  \x7d\n\x7d\n".toList ∧
        String.ofList line.name = "g" ∧ line.indent = "  ".toList ∧ line.arguments = [] ∧
        "g" ∉ (Extraction.ofText 10000
          "class A \x7b\n  f() \x7b\n  \x7d\n  g() \x7b\n  \x7d\n\x7d\n").methods := by
  have hindent : AllBlank [' ', ' '] :=
    List.forall_mem_cons.2 ⟨rfl, List.forall_mem_singleton.2 rfl⟩
  have hname : IsName ['g'] := ⟨'g', [], rfl, rfl, List.forall_mem_nil _⟩
  have hspace : AllBlank [' '] := List.forall_mem_singleton.2 rfl
  exact ⟨⟨[' ', ' '], ['g'], [], [' '], hindent, hname, List.not_mem_nil, List.not_mem_nil, hspace⟩,
    "class A \x7b\n  f() \x7b\n  \x7d".toList, "\n  \x7d\n\x7d\n".toList, rfl, rfl, rfl, rfl,
    by decide +kernel⟩

end MethodLine

end CodeSurvey
