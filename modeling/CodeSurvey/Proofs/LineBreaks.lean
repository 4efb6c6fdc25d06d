import CodeSurvey.Proofs.BraceMatching
import CodeSurvey.Proofs.TextBytes
import CodeSurvey.Text.NormalStart

/-!
# Line breaks

A text whose lines end with a line feed and the same text whose lines end with a carriage return and
a line feed. Characters move back by the carriage returns before them, so they keep their order, and
nothing that is read of a stretch tells the two texts apart: not its normal form, and not how its
braces match.

## Key results

- `Text.IsMoved.le_iff`: offsets keep their order
- `Text.normal_crlf`: the normal form of a text does not show how its lines end
- `Brace.exists_spanAt_crlfFrom`: the same braces end the spans behind a place
-/

namespace CodeSurvey

namespace Text

/-- A text with a carriage return put before every line feed. -/
def crlf (text : List Char) : List Char :=
  text.flatMap fun c => if c = '\n' then ['\r', '\n'] else [c]

/-- A text with a carriage return put before every line feed but one at its start. -/
def crlfFrom : List Char → List Char
  | [] => []
  | c :: rest => c :: crlf rest

@[simp] theorem crlf_nil : crlf [] = [] := rfl

@[simp] theorem crlf_cons_break (rest : List Char) :
    crlf ('\n' :: rest) = '\r' :: '\n' :: crlf rest := rfl

theorem crlf_cons_of_ne {c : Char} (h : c ≠ '\n') (rest : List Char) :
    crlf (c :: rest) = c :: crlf rest := by
  rw [crlf, List.flatMap_cons, if_neg h]
  rfl

@[simp] theorem crlf_append (front back : List Char) :
    crlf (front ++ back) = crlf front ++ crlf back :=
  List.flatMap_append

/-- A text without line breaks stays as it is. -/
theorem crlf_of_not_mem {text : List Char} (h : '\n' ∉ text) : crlf text = text := by
  induction text with
  | nil => rfl
  | cons c rest ih =>
    rw [List.mem_cons, not_or] at h
    rw [crlf_cons_of_ne (Ne.symm h.1), ih h.2]

theorem mem_crlf_of_ne {c : Char} (hr : c ≠ '\r') {text : List Char} :
    c ∈ crlf text ↔ c ∈ text := by
  induction text with
  | nil => rfl
  | cons d rest ih =>
    by_cases hd : d = '\n'
    · subst hd
      rw [crlf_cons_break, List.mem_cons, List.mem_cons, List.mem_cons, ih]
      simp [hr]
    · rw [crlf_cons_of_ne hd, List.mem_cons, List.mem_cons, ih]

/-! ## Where characters move -/

/-- How many bytes are put before the first character of a text. -/
def breakWidth (text : List Char) : Nat :=
  if text.head? = some '\n' then 1 else 0

theorem byteLength_crlf (text : List Char) :
    byteLength (crlf text) = breakWidth text + byteLength (crlfFrom text) := by
  cases text with
  | nil => rfl
  | cons c rest =>
    by_cases hc : c = '\n'
    · subst hc
      rw [crlf_cons_break, byteLength_cons]
      rfl
    · have hwidth : breakWidth (c :: rest) = 0 := by simp [breakWidth, hc]
      rw [crlf_cons_of_ne hc, hwidth, Nat.zero_add]
      rfl

/-- What is put before the first character of a text stands there. -/
theorem exists_crlf_eq_append (text : List Char) :
    ∃ lead, crlf text = lead ++ crlfFrom text ∧ lead.length = breakWidth text ∧
      byteLength lead = breakWidth text := by
  cases text with
  | nil => exact ⟨[], rfl, rfl, rfl⟩
  | cons c rest =>
    by_cases hc : c = '\n'
    · subst hc
      exact ⟨['\r'], rfl, rfl, rfl⟩
    · have hwidth : breakWidth (c :: rest) = 0 := by simp [breakWidth, hc]
      exact ⟨[], crlf_cons_of_ne hc rest, hwidth.symm, hwidth.symm⟩

theorem crlfFrom_append (front : List Char) {back : List Char} (h : back.head? ≠ some '\n') :
    crlfFrom (front ++ back) = crlfFrom front ++ crlf back := by
  cases front with
  | nil =>
    cases back with
    | nil => rfl
    | cons c back =>
      have hc : c ≠ '\n' := by simpa using h
      exact (crlf_cons_of_ne hc back).symm
  | cons c front =>
    show c :: crlf (front ++ back) = c :: crlf front ++ crlf back
    rw [crlf_append, List.cons_append]

theorem breakWidth_append (front : List Char) {back : List Char} (h : back.head? ≠ some '\n') :
    breakWidth (front ++ back) = breakWidth front := by
  cases front with
  | nil => exact if_neg h
  | cons c front => rfl

/-- Behind a character there is at least its first byte. -/
theorem breakWidth_lt_byteLength_crlf (c : Char) (rest : List Char) :
    breakWidth (c :: rest) < byteLength (crlf (c :: rest)) := by
  have hpos := c.utf8Size_pos
  rw [byteLength_crlf, crlfFrom, byteLength_cons]
  omega

/-- The character at a byte offset of a text, or the end of the text, moves to another offset if a
carriage return is put before every line feed. -/
def IsMoved (text : List Char) (offset moved : Nat) : Prop :=
  ∃ front rest, text = front ++ rest ∧ offset = byteLength front ∧
    moved = byteLength (crlf front) + breakWidth rest

/-- Behind a character lie later bytes, with carriage returns and without. -/
theorem byteLength_lt_of_cons (front : List Char) (c : Char) (between back : List Char) :
    byteLength front < byteLength (front ++ c :: between) ∧
      byteLength (crlf front) + breakWidth (c :: between ++ back) <
        byteLength (crlf (front ++ c :: between)) + breakWidth back := by
  have hpos := c.utf8Size_pos
  have hlt := breakWidth_lt_byteLength_crlf c between
  have hwidth : breakWidth (c :: between ++ back) = breakWidth (c :: between) := rfl
  rw [crlf_append, byteLength_append, byteLength_append, byteLength_cons]
  omega

/-- Offsets keep their order. -/
theorem IsMoved.le_iff {text : List Char} {first moved last other : Nat}
    (hfirst : IsMoved text first moved) (hlast : IsMoved text last other) :
    first ≤ last ↔ moved ≤ other := by
  obtain ⟨front, rest, rfl, rfl, rfl⟩ := hfirst
  obtain ⟨beyond, back, heq, rfl, rfl⟩ := hlast
  -- one of the stretches before the offsets goes on where the other one ends
  rcases List.append_eq_append_iff.1 heq with ⟨between, rfl, rfl⟩ | ⟨between, rfl, rfl⟩
  · cases between with
    | nil => simp
    | cons c between =>
      have hlt := byteLength_lt_of_cons front c between back
      omega
  · cases between with
    | nil => simp
    | cons c between =>
      have hlt := byteLength_lt_of_cons beyond c between rest
      omega

/-- A stretch moves as its first character does and its last one too. -/
theorem isMoved_append (front inner : List Char) {d : Char} (hd : d ≠ '\n') (back : List Char) :
    IsMoved (front ++ (inner ++ d :: back)) (byteLength front + byteLength inner)
      (byteLength (crlf front) + breakWidth (inner ++ d :: back) +
        byteLength (crlfFrom inner)) := by
  have hhead : (d :: back).head? ≠ some '\n' := by simpa using hd
  refine ⟨front ++ inner, d :: back, by simp, (byteLength_append _ _).symm, ?_⟩
  have hwidth : breakWidth (d :: back) = 0 := if_neg hhead
  rw [breakWidth_append inner hhead, crlf_append, byteLength_append, byteLength_crlf inner, hwidth]
  omega

/-! ## Places -/

/-- The place of a text with carriage returns that belongs to a place of the text without. In front
of a line break it is the one before the carriage return. -/
def shift (text : List Char) (place : Nat) : Nat :=
  (crlf (text.take place)).length

theorem shift_append (front rest : List Char) :
    shift (front ++ rest) front.length = (crlf front).length := by
  rw [shift, List.take_left]

section Places

variable {front rest : List Char} {place : Nat}

theorem shift_le (h : place ≤ front.length) :
    shift (front ++ rest) place ≤ (crlf front).length := by
  have hfront := congrArg List.length (congrArg crlf (List.take_append_drop place front))
  rw [crlf_append, List.length_append] at hfront
  rw [shift, List.take_append_of_le_length h]
  omega

theorem le_shift (h : front.length ≤ place) :
    (crlf front).length ≤ shift (front ++ rest) place := by
  rw [shift, List.take_append, List.take_of_length_le h, crlf_append, List.length_append]
  exact Nat.le_add_right _ _

/-- A character is one place, and so is the carriage return before it. -/
theorem length_crlf_concat (front : List Char) (c : Char) (rest : List Char) :
    (crlf (front ++ [c])).length = (crlf front).length + breakWidth (c :: rest) + 1 := by
  rw [crlf_append, List.length_append]
  by_cases hc : c = '\n'
  · subst hc
    rfl
  · have hwidth : breakWidth (c :: rest) = 0 := by simp [breakWidth, hc]
    rw [crlf_cons_of_ne hc, hwidth]
    rfl

/-- Places behind a character stay behind it. -/
theorem lt_shift {c : Char} (h : front.length < place) :
    (crlf front).length + breakWidth (c :: rest) < shift (front ++ c :: rest) place := by
  have hle : (crlf (front ++ [c])).length ≤ shift ((front ++ [c]) ++ rest) place :=
    le_shift (by rwa [List.length_append, List.length_singleton])
  rw [length_crlf_concat front c rest, List.append_assoc, List.singleton_append] at hle
  omega

end Places

namespace Cursor

/-- A place is found behind what stands before it and the carriage return that is put there. -/
theorem seek_crlf (front rest : List Char) :
    seek (crlf (front ++ rest)) (byteLength (crlf front) + breakWidth rest) =
      some ⟨byteLength (crlf front) + breakWidth rest, crlfFrom rest⟩ := by
  obtain ⟨lead, hrest, -, hwidth⟩ := exists_crlf_eq_append rest
  rw [crlf_append, hrest, ← hwidth, ← byteLength_append, ← List.append_assoc, seek_append]

end Cursor

/-! ## Normal forms -/

theorem head?_crlf (text : List Char) :
    (crlf text).head? = text.head?.map fun c => if c = '\n' then '\r' else c := by
  cases text with
  | nil => rfl
  | cons c rest =>
    by_cases hc : c = '\n'
    · subst hc
      rfl
    · rw [crlf_cons_of_ne hc, List.head?_cons, List.head?_cons, Option.map_some, if_neg hc]

/-- The end of a line stays, and no comment goes on behind it. -/
theorem dropCommentsFrom_cons_of_break (inside : Bool) {c : Char} (hc : c = '\r' ∨ c = '\n')
    (rest : List Char) :
    dropCommentsFrom inside [] (c :: rest) = c :: dropCommentsFrom false [] rest := by
  have hslash : c ≠ '/' := by rcases hc with rfl | rfl <;> decide
  cases inside with
  | true =>
    rw [dropCommentsFrom, if_pos (by simpa using hc), dropCommentsFrom_eq]
    rfl
  | false =>
    rw [dropCommentsFrom, if_neg (by simp [hslash]), dropCommentsFrom_eq]
    rfl

/-- Within a line, what is left of a text depends on what comes next. -/
theorem dropCommentsFrom_cons_of_not_break (inside : Bool) {c : Char} (hr : c ≠ '\r')
    (hn : c ≠ '\n') (rest : List Char) :
    dropCommentsFrom inside [] (c :: rest) =
      if inside || (c = '/' && rest.head? = some '/') then dropCommentsFrom true [] rest
      else c :: dropCommentsFrom false [] rest := by
  cases inside with
  | true =>
    rw [dropCommentsFrom, if_neg (by simp [hr, hn])]
    rfl
  | false =>
    rw [dropCommentsFrom, dropCommentsFrom_eq _ [c], Bool.false_or]
    rfl

/-- Comments end with their lines, however these end. -/
theorem dropCommentsFrom_crlf (inside : Bool) (text : List Char) :
    dropCommentsFrom inside [] (crlf text) = crlf (dropCommentsFrom inside [] text) := by
  induction text generalizing inside with
  | nil => cases inside <;> rfl
  | cons c rest ih =>
    by_cases hn : c = '\n'
    · subst hn
      rw [crlf_cons_break, dropCommentsFrom_cons_of_break inside (.inl rfl),
        dropCommentsFrom_cons_of_break false (.inr rfl),
        dropCommentsFrom_cons_of_break inside (.inr rfl), ih, crlf_cons_break]
    · rw [crlf_cons_of_ne hn]
      by_cases hr : c = '\r'
      · rw [dropCommentsFrom_cons_of_break inside (.inl hr),
          dropCommentsFrom_cons_of_break inside (.inl hr), ih, crlf_cons_of_ne hn]
      · -- whether a comment starts does not depend on how the line ends
        have hslash : ((crlf rest).head? = some '/') = (rest.head? = some '/') := by
          rw [head?_crlf]
          cases rest with
          | nil => rfl
          | cons d rest => by_cases hd : d = '\n' <;> simp [hd]
        rw [dropCommentsFrom_cons_of_not_break inside hr hn,
          dropCommentsFrom_cons_of_not_break inside hr hn, ih, ih]
        simp only [hslash]
        split
        · rfl
        · rw [crlf_cons_of_ne hn]

theorem map_doubleQuote_crlf (text : List Char) :
    (crlf text).map doubleQuote = crlf (text.map doubleQuote) := by
  induction text with
  | nil => rfl
  | cons c rest ih =>
    by_cases hc : c = '\n'
    · subst hc
      rw [crlf_cons_break, List.map_cons, List.map_cons, ih]
      rfl
    · have hquote : doubleQuote c ≠ '\n' := by
        unfold doubleQuote
        split
        · decide
        · exact hc
      rw [crlf_cons_of_ne hc, List.map_cons, List.map_cons, ih, crlf_cons_of_ne hquote]

theorem squeezeFrom_cons (inside : Bool) (c : Char) (rest : List Char) :
    squeezeFrom inside [] (c :: rest) =
      if isBlank c then (if inside then [] else [' ']) ++ squeezeFrom true [] rest
      else c :: squeezeFrom false [] rest := by
  rw [squeezeFrom, squeezeFrom_eq, squeezeFrom_eq _ [c]]
  cases inside <;> rfl

/-- A line break is squeezed like a single blank. -/
theorem squeezeFrom_crlf (inside : Bool) (text : List Char) :
    squeezeFrom inside [] (crlf text) = squeezeFrom inside [] text := by
  induction text generalizing inside with
  | nil => rfl
  | cons c rest ih =>
    by_cases hc : c = '\n'
    · subst hc
      have hreturn : isBlank '\r' = true := by decide
      have hfeed : isBlank '\n' = true := by decide
      rw [crlf_cons_break, squeezeFrom_cons, if_pos hreturn, squeezeFrom_cons, if_pos hfeed,
        squeezeFrom_cons, if_pos hfeed, ih]
      rfl
    · rw [crlf_cons_of_ne hc, squeezeFrom_cons, squeezeFrom_cons, ih, ih]

theorem normal_eq_tailNormal (text : List Char) : normal text = tailNormal false true text := by
  rw [normal, trim, squeeze, dropWhile_squeezeFrom]
  rfl

/-- The normal form of a text does not show how its lines end. -/
theorem normal_crlf (text : List Char) : normal (crlf text) = normal text := by
  rw [normal_eq_tailNormal, normal_eq_tailNormal, tailNormal, tailNormal, dropCommentsFrom_crlf,
    map_doubleQuote_crlf, squeezeFrom_crlf]

/-- A blank at the start of a text does not show in its normal form. -/
theorem normal_cons_of_blank {c : Char} (hblank : isBlank c = true) (rest : List Char) :
    normal (c :: rest) = normal rest := by
  have hslash : c ≠ '/' := by
    rintro rfl
    exact absurd hblank (by decide)
  have hkept : dropCommentsFrom false [] (c :: rest) = c :: dropCommentsFrom false [] rest := by
    rw [dropCommentsFrom, if_neg (by simp [hslash]), dropCommentsFrom_eq]
    rfl
  have hgap := normalBehind_of_blank hblank hkept true []
  rw [normal_eq_tailNormal, normal_eq_tailNormal]
  exact hgap

theorem normal_crlfFrom (text : List Char) : normal (crlfFrom text) = normal text := by
  cases text with
  | nil => rfl
  | cons c rest =>
    by_cases hc : c = '\n'
    · subst hc
      have hreturn : isBlank '\r' = true := by decide
      rw [← normal_crlf ('\n' :: rest), crlf_cons_break, normal_cons_of_blank hreturn]
      rfl
    · rw [← normal_crlf (c :: rest), crlf_cons_of_ne hc]
      rfl

/-- The normal form of a stretch that ends with a character of one byte does not show how its lines
end. -/
theorem normalUpTo_crlfFrom (limit offset moved : Nat) (inner : List Char) {d : Char}
    (hd : d ≠ '\n') (hsize : d.utf8Size = 1) (back : List Char) :
    normalUpTo limit (moved + byteLength (crlfFrom inner) + 1)
        ⟨moved, crlfFrom (inner ++ d :: back)⟩ =
      normalUpTo limit (offset + byteLength inner + 1) ⟨offset, inner ++ d :: back⟩ := by
  have hstop : ∀ (offset : Nat) (stretch : List Char),
      offset + byteLength stretch + 1 = offset + byteLength (stretch ++ [d]) := by
    intro offset stretch
    rw [byteLength_append, byteLength_cons, hsize]
    rfl
  have hstretch : inner ++ d :: back = (inner ++ [d]) ++ back := by simp
  have hmoved : crlfFrom (inner ++ d :: back) = (crlfFrom inner ++ [d]) ++ crlf back := by
    rw [crlfFrom_append inner (by simpa using hd), crlf_cons_of_ne hd]
    simp
  have hwhole : crlfFrom (inner ++ [d]) = crlfFrom inner ++ [d] := by
    rw [crlfFrom_append inner (by simpa using hd), crlf_cons_of_ne hd, crlf_nil]
  rw [normalUpTo_eq_truncate, normalUpTo_eq_truncate, Cursor.upTo, Cursor.upTo, hstop, hstop,
    hmoved, hstretch, Cursor.takeFrom_append, Cursor.takeFrom_append, ← hwhole, normal_crlfFrom]

end Text

namespace Brace

open Text

/-! ## Braces -/

theorem count_crlf {c : Char} (hr : c ≠ '\r') (text : List Char) :
    (crlf text).count c = text.count c := by
  induction text with
  | nil => rfl
  | cons d rest ih =>
    by_cases hd : d = '\n'
    · subst hd
      rw [crlf_cons_break, List.count_cons_of_ne (Ne.symm hr), List.count_cons, List.count_cons, ih]
    · rw [crlf_cons_of_ne hd, List.count_cons, List.count_cons, ih]

/-- Braces stay open however lines end. -/
theorem staysOpen_crlf {depth : Nat} {text : List Char} (h : StaysOpen depth text) :
    StaysOpen depth (crlf text) := by
  induction text generalizing depth with
  | nil => exact h
  | cons c rest ih =>
    have hpos := pos_of_staysOpen h
    by_cases hc : c = '\n'
    · subst hc
      rw [crlf_cons_break, staysOpen_other hpos (by decide) (by decide),
        staysOpen_other hpos (by decide) (by decide)]
      exact ih ((staysOpen_other hpos (by decide) (by decide)).1 h)
    · rw [crlf_cons_of_ne hc]
      by_cases hopen : c = '\x7b'
      · subst hopen
        rw [staysOpen_opening hpos] at h ⊢
        exact ih h
      · by_cases hclose : c = '\x7d'
        · subst hclose
          obtain ⟨less, rfl⟩ := Nat.exists_eq_succ_of_ne_zero (Nat.ne_of_gt hpos)
          rw [Nat.succ_eq_add_one, staysOpen_closing] at h ⊢
          exact ih h
        · rw [staysOpen_other hpos hopen hclose] at h ⊢
          exact ih h

/-- A brace ends at the same character however lines end: at the one that closes it, or at
itself. -/
theorem exists_closing_crlf (back : List Char) :
    ∃ inner d rest, '\x7b' :: back = inner ++ d :: rest ∧ (d = '\x7b' ∨ d = '\x7d') ∧
      inner.head? ≠ some '\n' ∧
      (∀ offset, closing ⟨offset, '\x7b' :: back⟩ = offset + byteLength inner) ∧
      ∀ offset, closing ⟨offset, '\x7b' :: crlf back⟩ = offset + byteLength (crlf inner) := by
  rcases staysOpen_or_exists_closing Nat.one_pos back with hopen | ⟨body, rest, rfl, hopen, hlast⟩
  · refine ⟨[], '\x7b', back, rfl, .inl rfl, by simp, fun offset => ?_, fun offset => ?_⟩
    · exact closing_of_ends (.unclosed back hopen)
    · exact closing_of_ends (.unclosed (crlf back) (staysOpen_crlf hopen))
  · refine ⟨'\x7b' :: body, '\x7d', rest, rfl, .inr rfl, by simp, fun offset => ?_,
      fun offset => ?_⟩
    · rw [closing_of_ends (.closed body rest hopen (by omega)), byteLength_cons, ← Nat.add_assoc]
      rfl
    · have hbody := staysOpen_crlf hopen
      have hcount : (crlf body).count '\x7d' = (crlf body).count '\x7b' := by
        rw [count_crlf (by decide), count_crlf (by decide)]
        omega
      have hends : Ends offset _ _ := .closed (crlf body) (crlf rest) hbody hcount
      rw [crlf_append, crlf_cons_of_ne (by decide), crlf_cons_of_ne (by decide),
        closing_of_ends hends, byteLength_cons, ← Nat.add_assoc]
      rfl

/-- Nothing opens a block but a brace. -/
theorem mem_of_openFrom {offset : Nat} {text : List Char} {cursor : Cursor}
    (h : openFrom offset text = some cursor) : '\x7b' ∈ text := by
  induction text generalizing offset with
  | nil => exact nomatch h
  | cons c rest ih =>
    rw [openFrom] at h
    split at h
    · rename_i hc
      exact hc ▸ List.mem_cons_self
    · exact List.mem_cons_of_mem c (ih h)

/-- The span behind a place ends at the same character however lines end. -/
theorem exists_spanAt_crlfFrom {rest : List Char} (h : '\x7b' ∈ rest) :
    ∃ inner d back, rest = inner ++ d :: back ∧ d ≠ '\n' ∧ d.utf8Size = 1 ∧
      (∀ offset, spanAt ⟨offset, rest⟩ = some ⟨offset, offset + byteLength inner⟩) ∧
      ∀ offset, spanAt ⟨offset, crlfFrom rest⟩ =
        some ⟨offset, offset + byteLength (crlfFrom inner)⟩ := by
  obtain ⟨lead, later, rfl, hlead⟩ := List.eq_append_cons_of_mem h
  obtain ⟨inner, d, back, heq, hd, hhead, hclosing, hmoved⟩ := exists_closing_crlf later
  have hbreak : d ≠ '\n' := by rcases hd with rfl | rfl <;> decide
  have hsize : d.utf8Size = 1 := by rcases hd with rfl | rfl <;> rfl
  refine ⟨lead ++ inner, d, back, by rw [heq, List.append_assoc], hbreak, hsize, fun offset => ?_,
    fun offset => ?_⟩
  · rw [spanAt, openFrom_append hlead, Option.map_some, hclosing, byteLength_append, Nat.add_assoc]
  · have hlead' : '\x7b' ∉ crlfFrom lead := by
      intro hmem
      obtain ⟨front, hfront, -, -⟩ := exists_crlf_eq_append lead
      have hall : '\x7b' ∈ crlf lead := hfront ▸ List.mem_append_right front hmem
      exact hlead ((mem_crlf_of_ne (by decide)).1 hall)
    have hopening :
        crlfFrom (lead ++ '\x7b' :: later) = crlfFrom lead ++ '\x7b' :: crlf later := by
      rw [crlfFrom_append lead (by simp), crlf_cons_of_ne (by decide)]
    rw [hopening, spanAt, openFrom_append hlead', Option.map_some, hmoved,
      crlfFrom_append lead hhead, byteLength_append, Nat.add_assoc]

end Brace

end CodeSurvey
