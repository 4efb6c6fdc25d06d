import Mathlib.Data.List.Forall2
import CodeSurvey.Block
import CodeSurvey.Proofs.BraceMatching
import CodeSurvey.Proofs.PatternLanguage
import CodeSurvey.Proofs.TextBytes

/-!
# Blocks and bodies

A header ends on the brace that opens the body, but its block ends with the first block that is
opened behind the start of the header. The two agree exactly if no brace stands in the header before
its last character, as in every header of a class. A function whose parameters hold a brace gets a
block that ends within its header.

## Key results

- `BlockKind.exists_inner_of_header`: a header ends on a brace, and that of a class holds no other
- `Block.forall₂_ofKind`: each header gives one block; when this block ends with the body
-/

namespace CodeSurvey

open Text (Cursor byteLength)

namespace BlockKind

open Pattern in
/-- What a header is made of before the brace on which it ends. -/
def headerFront : BlockKind → List Pattern
  | function => [functionName, blanks, char '(', many (· != ')'), char ')', blanks]
  | method =>
    [char '\n', blanks, capture name, blanks, char '(', many (· != ';'), char ')', blanks]
  | classBody =>
    [className, blanks, optional (inOrder [Pattern.word "extends".toList, gap, name]), blanks]

theorem header_eq_inOrder (kind : BlockKind) :
    kind.header = Pattern.inOrder (kind.headerFront ++ [Pattern.char '\x7b']) := by
  cases kind <;> rfl

theorem keeps_header (kind : BlockKind) : kind.header.keeps = true := by
  cases kind <;> rfl

/-- What stands in a header before the brace on which it ends. Another brace is no part of the
header of a class, and of that of a function only as part of its parameters. -/
structure HasFront (kind : BlockKind) (inner : List Char) : Prop where
  classBody : kind = .classBody → '\x7b' ∉ inner
  function : kind = .function → ∃ lead parameters gap,
    inner = lead ++ '(' :: (parameters ++ ')' :: gap) ∧ '(' ∉ lead ∧ ')' ∉ parameters ∧
      ('\x7b' ∈ inner ↔ '\x7b' ∈ parameters)

theorem hasFront_of_describes {kind : BlockKind} {inner : List Char} {kept : Option (Nat × Nat)}
    (h : (Pattern.inOrder kind.headerFront).Describes inner kept) : kind.HasFront inner where
  classBody := by
    rintro rfl
    exact Pattern.not_mem_of_avoids (by decide +kernel) h
  function := by
    rintro rfl
    -- the parts of the header one by one: name, blanks, parameters between parentheses, blanks
    obtain ⟨name, _, _, _, rfl, hname, ⟨blanks, _, _, _, rfl, hblanks, ⟨_, _, _, _, rfl,
      ⟨⟨c, rfl, hc⟩, -⟩, ⟨parameters, _, _, _, rfl, hparameters, ⟨_, gap, _, _, rfl,
      ⟨⟨d, rfl, hd⟩, -⟩, hgap, -⟩, -⟩, -⟩, -⟩, -⟩ := h
    obtain rfl := beq_iff_eq.1 hc
    obtain rfl := beq_iff_eq.1 hd
    have hlead : '(' ∉ name ++ blanks := by
      rw [List.mem_append, not_or]
      exact ⟨Pattern.not_mem_of_avoids (by decide +kernel) hname,
        Pattern.not_mem_of_avoids (by decide +kernel) hblanks⟩
    have hclosed := Pattern.not_mem_of_avoids (c := ')') (by decide +kernel) hparameters
    refine ⟨name ++ blanks, parameters, gap, by simp, hlead, hclosed, ?_⟩
    have hname := Pattern.not_mem_of_avoids (c := '\x7b') (by decide +kernel) hname
    have hblanks := Pattern.not_mem_of_avoids (c := '\x7b') (by decide +kernel) hblanks
    have hgap := Pattern.not_mem_of_avoids (c := '\x7b') (by decide +kernel) hgap
    simp [hname, hblanks, hgap]

/-- A header ends on a brace. -/
theorem exists_inner_of_header {kind : BlockKind} {stretch : List Char} {kept : Option (Nat × Nat)}
    (h : kind.header.Describes stretch kept) :
    ∃ inner, stretch = inner ++ ['\x7b'] ∧ kind.HasFront inner := by
  rw [header_eq_inOrder] at h
  obtain ⟨inner, last, _, _, rfl, hinner, ⟨c, rfl, hc⟩, -⟩ :=
    Pattern.exists_of_describes_inOrder_concat h
  obtain rfl := beq_iff_eq.1 hc
  exact ⟨inner, rfl, hasFront_of_describes hinner⟩

end BlockKind

namespace Block

/-- A block ends where the brace is closed on which its header ends, or at that brace if nothing
closes it. -/
def CoversBody (text : List Char) (header : Match) (block : Block) : Prop :=
  ∃ front back, text = front ++ '\x7b' :: back ∧ header.stop = byteLength front + 1 ∧
    Brace.Ends (byteLength front) back block.span.last

theorem coversBody_iff {text : List Char} {header : Match} (front back : List Char) (block : Block)
    (htext : text = front ++ '\x7b' :: back) (hstop : header.stop = byteLength front + 1) :
    CoversBody text header block ↔ Brace.Ends (byteLength front) back block.span.last := by
  refine ⟨?_, fun hends => ⟨front, back, htext, hstop, hends⟩⟩
  rintro ⟨front', back', htext', hstop', hends⟩
  -- both stretches lead to the same place of the text
  obtain ⟨rfl, hback⟩ := Text.eq_of_append_eq_append (htext'.symm.trans htext)
    (show byteLength front' = byteLength front by omega)
  obtain rfl := List.tail_eq_of_cons_eq hback
  exact hends

/-- What a block of a text is to its header, which ends on a brace behind `inner`: it starts with
it, and it covers the body exactly if no other brace stands in the header. -/
def Follows (text : List Char) (kind : BlockKind) (header : Match) (block : Block) : Prop :=
  block.span.first = header.start ∧
    ∃ front inner back, text = front ++ inner ++ '\x7b' :: back ∧
      header.start = byteLength front ∧ header.stop = byteLength (front ++ inner) + 1 ∧
      kind.HasFront inner ∧ (CoversBody text header block ↔ '\x7b' ∉ inner)

/-- A header that is found in a text gives a block. -/
theorem exists_ofHeader (limit : Nat) (text : List Char) (kind : BlockKind) (header : Match)
    (h : header ∈ kind.header.findAll text) :
    ∃ block, ((Cursor.seek text header.start).bind fun place =>
        (Brace.blockSpan text header.start).bind (ofHeader limit kind header place)) = some block ∧
      Follows text kind header block := by
  obtain ⟨front, stretch, back, kept, htext, hdescribes, hstart, hstop, hgroup⟩ :=
    Pattern.exists_describes_of_mem_findAll h
  obtain ⟨inner, rfl, hfront⟩ := BlockKind.exists_inner_of_header hdescribes
  -- a header names what it opens
  obtain ⟨keptSpan, rfl⟩ := Option.isSome_iff_exists.1
    (Pattern.isSome_of_keeps kind.keeps_header hdescribes)
  rw [List.append_assoc, List.singleton_append] at htext
  rw [← List.append_assoc, Text.byteLength_append] at hstop
  have hstop : header.stop = byteLength (front ++ inner) + 1 := hstop
  -- the block that is found behind the start of the header is not always the one it opens
  obtain ⟨span, hspan, hfirst, hlast⟩ := Brace.exists_blockSpan front inner back
  rw [← htext] at hspan
  have hplace : Cursor.seek text header.start = some ⟨header.start, inner ++ '\x7b' :: back⟩ := by
    rw [htext, hstart, Cursor.seek_append]
  rw [hplace, hstart, hspan, Option.bind_some, Option.bind_some, ofHeader, hgroup, Option.map_some,
    Option.map_some]
  rw [← List.append_assoc] at htext
  refine ⟨_, rfl, hfirst.trans hstart.symm, front, inner, back, htext, hstart, hstop, hfront, ?_⟩
  rw [coversBody_iff _ _ _ htext hstop]
  exact hlast

/-- Each header that is found in a text gives one block, in order. The block covers the body that
the header opens exactly if no brace stands in the header before the one on which it ends: always
for a class, and for a function if its parameters hold no brace. -/
theorem forall₂_ofKind (limit : Nat) (text : List Char) (kind : BlockKind) :
    List.Forall₂ (Follows text kind) (kind.header.findAll text) (ofKind limit text kind) := by
  rw [ofKind_eq_filterMap]
  have hall := exists_ofHeader limit text kind
  generalize kind.header.findAll text = headers at hall
  -- header by header: none is passed over
  induction headers with
  | nil => exact List.Forall₂.nil
  | cons header rest ih =>
    obtain ⟨block, hblock, hfollows⟩ := hall header List.mem_cons_self
    rw [List.filterMap_cons, hblock]
    exact List.Forall₂.cons hfollows (ih fun other hother =>
      hall other (List.mem_cons_of_mem header hother))

/-- The block of a function that takes its parameter apart ends within the parameters. -/
theorem not_coversBody_destructured :
    BlockKind.function.header.findAll "function f(\x7ba\x7d) \x7b return a; \x7d".toList =
        [⟨0, 17, some "f"⟩] ∧
      ofKind 10000 "function f(\x7ba\x7d) \x7b return a; \x7d".toList .function =
        [⟨"f", .function, "function f(\x7ba\x7d", ⟨0, 13⟩⟩] ∧
      ¬ CoversBody "function f(\x7ba\x7d) \x7b return a; \x7d".toList ⟨0, 17, some "f"⟩
        ⟨"f", .function, "function f(\x7ba\x7d", ⟨0, 13⟩⟩ := by
  refine ⟨by decide +kernel, by decide +kernel, ?_⟩
  rw [coversBody_iff "function f(\x7ba\x7d) ".toList " return a; \x7d".toList _
    (by decide +kernel) (by decide +kernel), Brace.ends_iff]
  decide +kernel

end Block

end CodeSurvey
