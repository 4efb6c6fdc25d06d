import Mathlib.Logic.Relation
import CodeSurvey.Proofs.BraceMatching
import CodeSurvey.Proofs.TextBytes

/-!
# Balanced braces

The ends of blocks, told by nothing but the bytes of the text: an opening brace ends at the first
byte behind it up to which as many braces are closed as opened, and at itself if there is none. On
the way to the end a count is kept of the braces that are open. It is their number at every place,
and never comes to zero before the end. So whatever two braces enclose is apart, or the one lies
within the other.

## Key results

- `closes_or_never`: an opening brace is closed where it ends, or never
- `Count.hasRead_of_next?` / `Count.exists_hasRead`: what a count keeps from character to character
- `matches_blockEnd`: what the ends of all bytes of a text are
-/

namespace CodeSurvey.Brace

open String (utf8EncodeChar)
open Text (Cursor asciiByte byteLength utf8Bytes)

/-! ## Balance -/

/-- How often a brace stands among the bytes of a text from byte `first` up to byte `stop`, which is
excluded. -/
def countBytes (brace : Char) (text : String) (first stop : Nat) : Nat :=
  ((utf8Bytes text).extract first stop).count (asciiByte brace)

/-- As many braces are closed as opened from byte `first` up to byte `stop`, which is excluded. -/
def Balances (text : String) (first stop : Nat) : Prop :=
  countBytes '\x7d' text first stop = countBytes '\x7b' text first stop

/-- Byte `last` closes the brace at byte `opening`: it is the first place behind it at which as many
braces have been closed as opened. -/
structure Closes (text : String) (opening last : Nat) : Prop where
  lt : opening < last
  brace : (utf8Bytes text)[last]? = some (asciiByte '\x7d')
  balances : Balances text opening (last + 1)
  opens_before : ∀ stop, opening < stop → stop ≤ last →
    countBytes '\x7d' text opening stop < countBytes '\x7b' text opening stop

theorem getElem?_utf8Bytes_opening_iff (text : String) (opening : Nat) :
    (utf8Bytes text)[opening]? = some (asciiByte '\x7b') ↔
      ∃ front rest, text.toList = front ++ '\x7b' :: rest ∧ byteLength front = opening := by
  rw [Text.utf8Bytes_eq_flatMap, Text.getElem?_flatMap_utf8EncodeChar_iff (by decide)]

section Behind

variable {text : String} {front rest : List Char} (htext : text.toList = front ++ '\x7b' :: rest)

include htext

theorem blockEnd_of_opening :
    blockEnd text.toList (byteLength front) = closing ⟨byteLength front, '\x7b' :: rest⟩ := by
  rw [blockEnd, htext, Cursor.seek_append]

/-- The bytes from an opening brace on. -/
theorem extract_utf8Bytes (length : Nat) :
    (utf8Bytes text).extract (byteLength front) (byteLength front + 1 + length) =
      asciiByte '\x7b' :: (rest.flatMap utf8EncodeChar).take length := by
  have hsize := Text.length_flatMap_utf8EncodeChar front
  have hbrace : utf8EncodeChar '\x7b' = [asciiByte '\x7b'] := Text.utf8EncodeChar_ascii (by decide)
  rw [List.extract_eq_take_drop, Text.utf8Bytes_eq_flatMap, htext, List.flatMap_append,
    List.drop_append_of_le_length (Nat.le_of_eq hsize.symm),
    List.drop_of_length_le (Nat.le_of_eq hsize), List.nil_append, List.flatMap_cons, hbrace,
    List.singleton_append, Nat.add_assoc, Nat.add_sub_cancel_left, Nat.add_comm 1,
    List.take_succ_cons]

/-- What is counted from an opening brace on is that brace and what a stretch behind it holds. -/
theorem exists_prefix_of_countBytes (length : Nat) :
    ∃ within, within <+: rest ∧ byteLength within ≤ length ∧
      countBytes '\x7d' text (byteLength front) (byteLength front + 1 + length) =
        within.count '\x7d' ∧
      countBytes '\x7b' text (byteLength front) (byteLength front + 1 + length) =
        within.count '\x7b' + 1 := by
  obtain ⟨within, hprefix, hlength, hcount⟩ := Text.exists_prefix_of_take rest length
  refine ⟨within, hprefix, hlength, ?_, ?_⟩
  · rw [countBytes, extract_utf8Bytes htext, List.count_cons_of_ne (by decide),
      hcount '\x7d' (by decide)]
  · rw [countBytes, extract_utf8Bytes htext, List.count_cons_self, hcount '\x7b' (by decide)]

/-- What is counted from an opening brace up to the end of a stretch behind it. -/
theorem countBytes_of_append {body back : List Char} (hrest : rest = body ++ back) :
    countBytes '\x7d' text (byteLength front) (byteLength front + 1 + byteLength body) =
        body.count '\x7d' ∧
      countBytes '\x7b' text (byteLength front) (byteLength front + 1 + byteLength body) =
        body.count '\x7b' + 1 := by
  have htake : (rest.flatMap utf8EncodeChar).take (byteLength body) =
      body.flatMap utf8EncodeChar := by
    rw [hrest, List.flatMap_append, ← Text.length_flatMap_utf8EncodeChar body, List.take_left]
  constructor
  · rw [countBytes, extract_utf8Bytes htext, htake, List.count_cons_of_ne (by decide),
      Text.count_flatMap_utf8EncodeChar (by decide)]
  · rw [countBytes, extract_utf8Bytes htext, htake, List.count_cons_self,
      Text.count_flatMap_utf8EncodeChar (by decide)]

/-- Nothing balances a brace behind which the text stays open. -/
theorem not_balances_of_staysOpen {stop : Nat} (h : StaysOpen 1 rest)
    (hlt : byteLength front < stop) : ¬ Balances text (byteLength front) stop := by
  obtain ⟨length, rfl⟩ : ∃ length, stop = byteLength front + 1 + length :=
    ⟨stop - byteLength front - 1, by omega⟩
  obtain ⟨within, hprefix, -, hclosed, hopened⟩ := exists_prefix_of_countBytes htext length
  have hopen := h within hprefix
  rw [Balances, hclosed, hopened]
  omega

/-- A brace is closed behind a stretch that stays open and holds as many closing braces as opening
ones. -/
theorem closes_of_staysOpen {body back : List Char} (hrest : rest = body ++ '\x7d' :: back)
    (h : StaysOpen 1 body) (hcount : body.count '\x7d' = body.count '\x7b') :
    Closes text (byteLength front) (byteLength front + 1 + byteLength body) where
  lt := by omega
  brace := by
    rw [Text.utf8Bytes_eq_flatMap, Text.getElem?_flatMap_utf8EncodeChar_iff (by decide)]
    refine ⟨front ++ '\x7b' :: body, back, by simp [htext, hrest], ?_⟩
    rw [Text.byteLength_append, Text.byteLength_cons]
    exact (Nat.add_assoc _ _ _).symm
  balances := by
    have hbody : rest = (body ++ ['\x7d']) ++ back := by simp [hrest]
    obtain ⟨hclosed, hopened⟩ := countBytes_of_append htext hbody
    have hlast : byteLength (body ++ ['\x7d']) = byteLength body + 1 := Text.byteLength_append _ _
    rw [hlast, ← Nat.add_assoc] at hclosed hopened
    rw [Balances, hclosed, hopened, List.count_append, List.count_append, hcount]
    rfl
  opens_before := by
    intro stop hlt hle
    obtain ⟨length, rfl⟩ : ∃ length, stop = byteLength front + 1 + length :=
      ⟨stop - byteLength front - 1, by omega⟩
    obtain ⟨within, hprefix, hlength, hclosed, hopened⟩ := exists_prefix_of_countBytes htext length
    -- what is counted lies within the stretch, which stays open
    have hbody : within <+: body :=
      Text.prefix_of_byteLength_le hprefix (hrest ▸ List.prefix_append _ _) (by omega)
    have hopen := h within hbody
    omega

/-- An opening brace is closed where it ends, or it is its own end and nothing balances it. -/
theorem closes_or_never :
    Closes text (byteLength front) (blockEnd text.toList (byteLength front)) ∨
      blockEnd text.toList (byteLength front) = byteLength front ∧
        ∀ stop, byteLength front < stop → ¬ Balances text (byteLength front) stop := by
  rw [blockEnd_of_opening htext]
  have hends := (ends_iff (byteLength front) rest _).2 rfl
  generalize closing ⟨byteLength front, '\x7b' :: rest⟩ = last at hends
  cases hends with
  | closed body back hopen hcount => exact .inl (closes_of_staysOpen htext rfl hopen hcount)
  | unclosed _ hopen => exact .inr ⟨rfl, fun stop => not_balances_of_staysOpen htext hopen⟩

end Behind

/-! ## Counting -/

/-- A count on its way: the number of braces that are open, and what is left of the text from byte
`offset` on. -/
structure Count where
  depth : Nat
  offset : Nat
  rest : List Char

namespace Count

/-- The offset at which all braces that are open have been closed. -/
def last? (count : Count) : Option Nat :=
  closeFrom count.depth count.offset count.rest

/-- The count behind the next character, unless this closes the last brace. -/
def next? : Count → Option Count
  | ⟨_, _, []⟩ => none
  | ⟨depth, offset, c :: rest⟩ =>
    if c = '\x7b' then some ⟨depth + 1, offset + 1, rest⟩
    else if c = '\x7d' then
      if depth ≤ 1 then none else some ⟨depth - 1, offset + 1, rest⟩
    else some ⟨depth, offset + c.utf8Size, rest⟩

/-- A count goes on, or ends at a closing brace or at the end of the text. -/
theorem last?_eq (count : Count) :
    count.last? = match count.next? with
      | some next => next.last?
      | none => if count.rest.head? = some '\x7d' then some count.offset else none := by
  obtain ⟨depth, offset, rest⟩ := count
  cases rest with
  | nil => rfl
  | cons c rest =>
    simp only [last?, next?, closeFrom]
    split
    · rfl
    · split
      · rename_i hclose
        split
        · simp [hclose]
        · rfl
      · rfl

/-- A count that began with one open brace at byte `start` of a text has read `front` of it. -/
structure HasRead (start : Nat) (text front : List Char) (count : Count) : Prop where
  text_eq : text = front ++ count.rest
  offset_eq : count.offset = start + byteLength front
  staysOpen : StaysOpen 1 front
  depth_eq : count.depth + front.count '\x7d' = 1 + front.count '\x7b'
  last?_eq : count.last? = closeFrom 1 start text

theorem hasRead_start (start : Nat) (text : List Char) : HasRead start text [] ⟨1, start, text⟩ :=
  ⟨rfl, rfl, staysOpen_nil.2 Nat.one_pos, rfl, rfl⟩

/-- With each character the count has read one more, and not all braces have been closed. -/
theorem hasRead_of_next? {start : Nat} {text front : List Char} {count next : Count}
    (h : HasRead start text front count) (hnext : count.next? = some next) :
    ∃ c, HasRead start text (front ++ [c]) next := by
  have hlast := count.last?_eq
  rw [hnext] at hlast
  obtain ⟨depth, offset, rest⟩ := count
  obtain ⟨rfl, hoffset, hopen, hdepth, hsame⟩ := h
  have hpos := hopen front (List.prefix_refl _)
  change offset = _ at hoffset
  change depth + _ = _ at hdepth
  cases rest with
  | nil => cases hnext
  | cons c rest =>
    -- it is enough that the new depth is the number of braces that are open, and not zero
    have hread : ∀ depth', next = ⟨depth', offset + c.utf8Size, rest⟩ → 0 < depth' →
        depth' + (front ++ [c]).count '\x7d' = 1 + (front ++ [c]).count '\x7b' →
        HasRead start (front ++ c :: rest) (front ++ [c]) next := by
      rintro depth' rfl hpos' hdepth'
      refine ⟨by simp, ?_, staysOpen_concat.2 ⟨hopen, by omega⟩, hdepth', hlast.symm.trans hsame⟩
      rw [Text.byteLength_append, ← Nat.add_assoc, ← hoffset]
      exact congrArg (offset + ·) (Nat.zero_add _).symm
    rw [List.count_append, List.count_append] at hread
    refine ⟨c, ?_⟩
    simp only [next?] at hnext
    split at hnext
    · rename_i hc
      subst hc
      exact hread _ (Option.some.inj hnext).symm (Nat.succ_pos depth) (by simp; omega)
    · rename_i hc
      split at hnext
      · rename_i hc'
        subst hc'
        split at hnext
        · cases hnext
        · exact hread _ (Option.some.inj hnext).symm (by omega) (by simp; omega)
      · rename_i hc'
        exact hread _ (Option.some.inj hnext).symm (by omega) (by simp [hc, hc']; omega)

/-- One count comes to another, character by character. -/
def ComesTo : Count → Count → Prop :=
  Relation.ReflTransGen fun count next => count.next? = some next

theorem exists_hasRead {start : Nat} {text : List Char} {count : Count}
    (h : ComesTo ⟨1, start, text⟩ count) : ∃ front, HasRead start text front count := by
  -- the invariant holds at the start and is kept by every step
  induction h with
  | refl => exact ⟨[], hasRead_start start text⟩
  | tail _ hnext ih =>
    obtain ⟨front, hread⟩ := ih
    obtain ⟨c, hread⟩ := hasRead_of_next? hread hnext
    exact ⟨front ++ [c], hread⟩

end Count

/-! ## Matching -/

/-- What the ends of the bytes of a text are. -/
structure Matches (text : String) : Prop where
  /-- A byte that is no opening brace is its own end, and so is one past the end of the text. -/
  other : ∀ opening, (utf8Bytes text)[opening]? ≠ some (asciiByte '\x7b') →
    blockEnd text.toList opening = opening
  /-- An opening brace ends where the braces balance for the first time. -/
  closed : ∀ opening, (utf8Bytes text)[opening]? = some (asciiByte '\x7b') →
    (∃ stop, opening < stop ∧ Balances text opening stop) →
      Closes text opening (blockEnd text.toList opening)
  /-- If they never balance, the brace is its own end. -/
  unclosed : ∀ opening, (utf8Bytes text)[opening]? = some (asciiByte '\x7b') →
    (∀ stop, opening < stop → ¬ Balances text opening stop) →
      blockEnd text.toList opening = opening
  /-- On the way to the end the depth is the number of braces that have been opened and not closed,
  and never zero, so that there is always one to close. -/
  counted : ∀ opening rest count,
    Cursor.seek text.toList opening = some ⟨opening, '\x7b' :: rest⟩ →
    Count.ComesTo ⟨1, opening + 1, rest⟩ count →
      0 < count.depth ∧
      count.depth + countBytes '\x7d' text opening count.offset =
        countBytes '\x7b' text opening count.offset ∧
      blockEnd text.toList opening = count.last?.getD opening
  /-- What two opening braces enclose is apart, or the second lies within the first. -/
  apart_or_within : ∀ first second, first < second →
    (utf8Bytes text)[first]? = some (asciiByte '\x7b') →
    (utf8Bytes text)[second]? = some (asciiByte '\x7b') →
      blockEnd text.toList first < second ∨
      second ≤ blockEnd text.toList second ∧
        blockEnd text.toList second < blockEnd text.toList first

/-- Of two opening braces the first ends before the second, or behind its end. -/
theorem closing_lt_or_within {front rest front' rest' : List Char}
    (h : front ++ '\x7b' :: rest = front' ++ '\x7b' :: rest')
    (hlt : byteLength front < byteLength front') :
    closing ⟨byteLength front, '\x7b' :: rest⟩ < byteLength front' ∨
      closing ⟨byteLength front', '\x7b' :: rest'⟩ <
        closing ⟨byteLength front, '\x7b' :: rest⟩ := by
  have hsize : byteLength (front ++ ['\x7b']) = byteLength front + 1 := Text.byteLength_append _ _
  obtain ⟨between, rfl, rfl⟩ := Text.exists_of_append_eq_append
    (show (front ++ ['\x7b']) ++ rest = front' ++ '\x7b' :: rest' by simpa using h) (by omega)
  rw [Text.byteLength_append (front ++ ['\x7b']), hsize]
  rcases closing_cases (byteLength front) between rest' with
    hinner | hunclosed | ⟨body, later, rfl, hclosed⟩
  · exact .inr hinner
  · exact .inl (by omega)
  · -- the first brace is closed in front of the second one
    have hpos := Char.utf8Size_pos '\x7d'
    rw [Text.byteLength_append body, Text.byteLength_cons]
    exact .inl (by omega)

/-- The braces of every text are matched. -/
theorem matches_blockEnd (text : String) : Matches text where
  other := by
    intro opening hbyte
    rw [blockEnd]
    cases hseek : Cursor.seek text.toList opening with
    | none => rfl
    | some cursor =>
      rw [← Cursor.seek_offset hseek]
      obtain ⟨front, htext, hfront⟩ := Cursor.exists_of_seek hseek
      apply closing_eq_offset
      intro hhead
      obtain ⟨rest, hrest⟩ := List.head?_eq_some_iff.1 hhead
      exact hbyte ((getElem?_utf8Bytes_opening_iff text opening).2
        ⟨front, rest, by rw [htext, hrest], hfront.symm⟩)
  closed := by
    rintro opening hbyte ⟨stop, hlt, hbalances⟩
    obtain ⟨front, rest, htext, rfl⟩ := (getElem?_utf8Bytes_opening_iff text opening).1 hbyte
    rcases closes_or_never htext with hcloses | ⟨-, hnever⟩
    · exact hcloses
    · exact absurd hbalances (hnever stop hlt)
  unclosed := by
    intro opening hbyte hnever
    obtain ⟨front, rest, htext, rfl⟩ := (getElem?_utf8Bytes_opening_iff text opening).1 hbyte
    rcases closes_or_never htext with hcloses | ⟨hend, -⟩
    · exact absurd hcloses.balances (hnever _ (Nat.lt_succ_of_lt hcloses.lt))
    · exact hend
  counted := by
    intro opening rest count hseek hcomes
    obtain ⟨front, htext, rfl⟩ := Cursor.exists_of_seek hseek
    obtain ⟨within, hread⟩ := Count.exists_hasRead hcomes
    obtain ⟨hclosed, hopened⟩ := countBytes_of_append htext hread.text_eq
    have hdepth := hread.depth_eq
    have hopen := hread.staysOpen within (List.prefix_refl _)
    rw [hread.offset_eq, hclosed, hopened, blockEnd_of_opening htext, hread.last?_eq]
    exact ⟨by omega, by omega, rfl⟩
  apart_or_within := by
    intro first second hlt hfirst hsecond
    obtain ⟨front, rest, htext, rfl⟩ := (getElem?_utf8Bytes_opening_iff text first).1 hfirst
    obtain ⟨front', rest', htext', rfl⟩ := (getElem?_utf8Bytes_opening_iff text second).1 hsecond
    rw [blockEnd_of_opening htext, blockEnd_of_opening htext']
    exact (closing_lt_or_within (htext.symm.trans htext') hlt).imp_right
      fun hinner => ⟨le_closing _ _, hinner⟩

end CodeSurvey.Brace
