import CodeSurvey.Text.Cursor
import CodeSurvey.Text.Normal

/-!
# The start of a normal form

The first characters of the normal form of a stretch of source text, read in one pass that goes no
further than they need. `normalUpTo_eq_truncate` says that this is the normal form of the stretch,
cut to as many characters.
-/

namespace CodeSurvey.Text

open Cursor (takeFrom)

/-- Writes the normal form of what is left of a text before byte `stop` as far as there is `room`
for its characters. The text starts at byte `offset`. `inside` tells whether it starts within a
comment and `gap` whether white space has been passed since the last character; `done` is
reversed. -/
def normalFrom (stop : Nat) :
    (offset room : Nat) → (inside gap : Bool) → (done : List Char) → List Char → List Char
  | _, 0, _, _, done, _ => done.reverse
  | _, _, _, _, done, [] => done.reverse
  | offset, room + 1, inside, gap, done, c :: rest =>
    if stop ≤ offset then done.reverse
    else
      let next := offset + c.utf8Size
      if inside then
        if c = '\r' || c = '\n' then normalFrom stop next (room + 1) false true done rest
        else normalFrom stop next (room + 1) true gap done rest
      else if c = '/' && (next < stop && rest.head? = some '/') then
        normalFrom stop next (room + 1) true gap done rest
      else if isBlank c then normalFrom stop next (room + 1) false true done rest
      else if gap && !done.isEmpty then
        match room with
        | 0 => (' ' :: done).reverse
        | room + 1 => normalFrom stop next room false false (doubleQuote c :: ' ' :: done) rest
      else normalFrom stop next room false false (doubleQuote c :: done) rest

/-- The first `limit` characters of the normal form of the source text between a place and byte
`stop`, read no further than they need. -/
def normalUpTo (limit stop : Nat) (place : Cursor) : List Char :=
  normalFrom stop place.offset limit false false [] place.rest

/-- What has been kept stands before the rest without its comments. -/
theorem dropCommentsFrom_eq (inside : Bool) (done text : List Char) :
    dropCommentsFrom inside done text = done.reverse ++ dropCommentsFrom inside [] text := by
  induction text generalizing inside done with
  | nil => simp [dropCommentsFrom]
  | cons c rest ih =>
    cases inside with
    | true =>
      simp only [dropCommentsFrom]
      split
      · rw [ih, ih _ [c]]; simp
      · exact ih _ _
    | false =>
      simp only [dropCommentsFrom]
      split
      · exact ih _ _
      · rw [ih, ih _ [c]]; simp

/-- What has been written stands before the rest. -/
theorem squeezeFrom_eq (inside : Bool) (done text : List Char) :
    squeezeFrom inside done text = done.reverse ++ squeezeFrom inside [] text := by
  induction text generalizing inside done with
  | nil => simp [squeezeFrom]
  | cons c rest ih =>
    simp only [squeezeFrom]
    split
    · cases inside with
      | true => exact ih _ _
      | false =>
        simp only [Bool.false_eq_true, if_false]
        rw [ih, ih _ [' ']]
        simp
    · rw [ih, ih _ [c]]
      simp

/-- White space at the start of a text is squeezed to nothing where white space stands before. -/
theorem dropWhile_squeezeFrom (text : List Char) :
    (squeezeFrom false [] text).dropWhile isBlank = squeezeFrom true [] text := by
  have hnil : ∀ text, (squeezeFrom true [] text).dropWhile isBlank = squeezeFrom true [] text := by
    intro text
    induction text with
    | nil => rfl
    | cons c rest ih =>
      simp only [squeezeFrom]
      split
      · exact ih
      · rw [squeezeFrom_eq]
        simp_all
  cases text with
  | nil => rfl
  | cons c rest =>
    simp only [squeezeFrom]
    split
    · simp only [Bool.false_eq_true, if_false, if_true]
      rw [squeezeFrom_eq]
      simp [hnil rest, show isBlank ' ' = true by decide]
    · rw [squeezeFrom_eq]
      simp_all

theorem isBlank_doubleQuote (c : Char) : isBlank (doubleQuote c) = isBlank c := by
  unfold doubleQuote
  split
  · subst_vars
    decide
  · rfl

/-- The normal form of what is left of a text, but for white space at its start, which is kept as
one space unless there is a `gap` before it. -/
def tailNormal (inside gap : Bool) (text : List Char) : List Char :=
  trimEnd (squeezeFrom gap [] ((dropCommentsFrom inside [] text).map doubleQuote))

/-- Some characters behind a space; without any there is no space either. -/
def behindSpace : List Char → List Char
  | [] => []
  | c :: rest => ' ' :: c :: rest

/-- What the normal form goes on with behind the characters in `done`. -/
def normalBehind (inside gap : Bool) (done text : List Char) : List Char :=
  if done.isEmpty then tailNormal inside true text
  else if gap then behindSpace (tailNormal inside true text)
  else tailNormal inside false text

theorem normalBehind_nil (inside gap : Bool) (done : List Char) :
    normalBehind inside gap done [] = [] := by
  have h : ∀ gap, tailNormal inside gap [] = [] := fun gap => by cases inside <;> rfl
  simp [normalBehind, h, behindSpace]

theorem normalBehind_congr {inside inside' : Bool} {text text' : List Char}
    (h : dropCommentsFrom inside [] text = dropCommentsFrom inside' [] text') (gap : Bool)
    (done : List Char) :
    normalBehind inside gap done text = normalBehind inside' gap done text' := by
  simp only [normalBehind, tailNormal, h]

/-- White space leaves a gap. -/
theorem normalBehind_of_blank {c : Char} (hblank : isBlank c = true) {inside : Bool}
    {text rest : List Char}
    (h : dropCommentsFrom inside [] text = c :: dropCommentsFrom false [] rest) (gap : Bool)
    (done : List Char) :
    normalBehind inside gap done text = normalBehind false true done rest := by
  have hc : isBlank (doubleQuote c) = true := by rw [isBlank_doubleQuote, hblank]
  have hgap : tailNormal inside true text = tailNormal false true rest := by
    simp [tailNormal, h, squeezeFrom, hc]
  have hspace : tailNormal inside false text = behindSpace (tailNormal false true rest) := by
    simp only [tailNormal, h, List.map_cons, squeezeFrom, hc, if_true, Bool.false_eq_true, if_false]
    rw [squeezeFrom_eq, List.reverse_singleton, List.singleton_append,
      trimEnd_cons_of_blank (by decide)]
    split
    · simp_all [behindSpace]
    · unfold behindSpace
      split <;> simp_all
  simp only [normalBehind, hgap, hspace]
  cases gap <;> simp

/-- Any other character is written, behind a space if there is a gap. -/
theorem normalBehind_of_not_blank {c : Char} (hblank : isBlank c = false) {inside : Bool}
    {text rest : List Char}
    (h : dropCommentsFrom inside [] text = c :: dropCommentsFrom false [] rest) (gap : Bool)
    (done : List Char) :
    normalBehind inside gap done text =
      if gap && !done.isEmpty then ' ' :: doubleQuote c :: tailNormal false false rest
      else doubleQuote c :: tailNormal false false rest := by
  have hc : isBlank (doubleQuote c) = false := by rw [isBlank_doubleQuote, hblank]
  have htail : ∀ gap,
      tailNormal inside gap text = doubleQuote c :: tailNormal false false rest := by
    intro gap
    simp only [tailNormal, h, List.map_cons, squeezeFrom, hc, Bool.false_eq_true, if_false]
    rw [squeezeFrom_eq, List.reverse_singleton, List.singleton_append]
    exact trimEnd_cons_of_not_blank hc _
  simp only [normalBehind, htail, behindSpace]
  cases gap <;> cases done <;> simp

theorem takeFrom_cons_of_not_le {stop offset : Nat} (h : ¬stop ≤ offset) (c : Char)
    (rest : List Char) :
    takeFrom stop offset (c :: rest) = c :: takeFrom stop (offset + c.utf8Size) rest := by
  rw [takeFrom, if_pos (by omega)]

theorem head?_takeFrom (stop offset : Nat) (text : List Char) :
    (takeFrom stop offset text).head? = if offset < stop then text.head? else none := by
  cases text with
  | nil => simp [takeFrom]
  | cons c rest => rw [takeFrom]; split <;> rfl

/-- A comment starts within a stretch if its two slashes are there. -/
theorem comment_takeFrom (c : Char) (stop next : Nat) (rest : List Char) :
    (c = '/' && (takeFrom stop next rest).head? = some '/') =
      (c = '/' && (next < stop && rest.head? = some '/')) := by
  rw [head?_takeFrom]
  by_cases h : next < stop <;> simp [h]

/-- What has been written stands before what there is room for. -/
theorem normalFrom_eq (stop offset room : Nat) (inside gap : Bool) (done text : List Char) :
    normalFrom stop offset room inside gap done text =
      done.reverse ++ (normalBehind inside gap done (takeFrom stop offset text)).take room := by
  have outside : ∀ {c rest next},
      ¬(c = '/' && (next < stop && rest.head? = some '/')) = true →
        dropCommentsFrom false [] (c :: takeFrom stop next rest) =
          c :: dropCommentsFrom false [] (takeFrom stop next rest) := by
    intro c rest next hc
    rw [dropCommentsFrom, if_neg (by rwa [comment_takeFrom]), dropCommentsFrom_eq]
    rfl
  fun_induction normalFrom stop offset room inside gap done text with
  | case1 => simp
  | case2 => simp [takeFrom, normalBehind_nil]
  | case3 offset room inside gap done c rest hstop =>
    rw [takeFrom, if_neg (by omega), normalBehind_nil, List.take_nil, List.append_nil]
  | case4 offset room gap done c rest hstop next hc ih =>
    have hblank : isBlank c = true := by
      rcases (by simpa using hc : c = '\r' ∨ c = '\n') with rfl | rfl <;> decide
    have hline : dropCommentsFrom true [] (c :: takeFrom stop next rest) =
        c :: dropCommentsFrom false [] (takeFrom stop next rest) := by
      rw [dropCommentsFrom, if_pos hc, dropCommentsFrom_eq]
      rfl
    rw [ih, takeFrom_cons_of_not_le hstop, normalBehind_of_blank hblank hline]
  | case5 offset room gap done c rest hstop next hc ih =>
    have hline : dropCommentsFrom true [] (c :: takeFrom stop next rest) =
        dropCommentsFrom true [] (takeFrom stop next rest) := by
      rw [dropCommentsFrom, if_neg hc]
    rw [ih, takeFrom_cons_of_not_le hstop, normalBehind_congr hline]
  | case6 offset room inside gap done c rest hstop next hinside hc ih =>
    rw [Bool.not_eq_true] at hinside
    subst hinside
    have hline : dropCommentsFrom false [] (c :: takeFrom stop next rest) =
        dropCommentsFrom true [] (takeFrom stop next rest) := by
      rw [dropCommentsFrom, if_pos (by rwa [comment_takeFrom])]
    rw [ih, takeFrom_cons_of_not_le hstop, normalBehind_congr hline]
  | case7 offset room inside gap done c rest hstop next hinside hc hblank ih =>
    rw [Bool.not_eq_true] at hinside
    subst hinside
    rw [ih, takeFrom_cons_of_not_le hstop, normalBehind_of_blank hblank (outside hc)]
  | case8 offset inside gap done c rest hstop next hinside hc hblank hgap =>
    rw [Bool.not_eq_true] at hinside
    subst hinside
    rw [takeFrom_cons_of_not_le hstop,
      normalBehind_of_not_blank (by simpa using hblank) (outside hc), if_pos hgap]
    simp
  | case9 offset inside gap done c rest hstop next hinside hc hblank hgap room ih =>
    rw [Bool.not_eq_true] at hinside
    subst hinside
    rw [ih, takeFrom_cons_of_not_le hstop,
      normalBehind_of_not_blank (by simpa using hblank) (outside hc) gap, if_pos hgap]
    simp [normalBehind]
  | case10 offset room inside gap done c rest hstop next hinside hc hblank hgap ih =>
    rw [Bool.not_eq_true] at hinside
    subst hinside
    rw [ih, takeFrom_cons_of_not_le hstop,
      normalBehind_of_not_blank (by simpa using hblank) (outside hc) gap, if_neg hgap]
    simp [normalBehind]

/-- What is read of a normal form is its start. -/
theorem normalUpTo_eq_truncate (limit stop : Nat) (place : Cursor) :
    normalUpTo limit stop place = truncate limit (normal (place.upTo stop)) := by
  rw [normalUpTo, normalFrom_eq, normal, trim, squeeze, dropWhile_squeezeFrom]
  rfl

end CodeSurvey.Text
