import CodeSurvey.Proofs.ListLemmas
import CodeSurvey.Proofs.LowerParts
import CodeSurvey.Text.Blank

/-!
# Texts in lower case

The lower-case form of a text is in lower case already: no range of the table leads to a character
that another range leads on from, and a sigma in either form stays what it is. White space has no
case, and nothing else becomes white space.

## Key results

- `lowerChar_cases`: the ways in which a character is lower-cased by itself
- `lower_lower`: lower-casing a second time changes nothing
- `trimString_lower`: lower-casing puts no white space at the ends of a text
-/

namespace CodeSurvey.Text

/-! ## The ranges of the table

What the ranges lead to is taken together as one number, a bit for each code point, and so is what
it is compared with: that takes much less time than comparing every range with every other one. -/

namespace CaseRange

/-- The number with the lowest bit set and behind it, in steps, as many others as given. -/
def bitsInSteps (step : Nat) : Nat → Nat
  | 0 => 1
  | count + 1 => bitsInSteps step count <<< step ||| 1

/-- The code points on a range as bits of a number, the first one at the given place. -/
def bitsFrom (range : CaseRange) (start : Nat) : Nat :=
  bitsInSteps range.step ((range.last - range.first) / range.step) <<< start

variable {range : CaseRange} {code : Nat}

theorem covers_iff :
    range.covers code = true ↔
      range.first ≤ code ∧ code ≤ range.last ∧ (code - range.first) % range.step = 0 := by
  simp [covers, and_assoc]

theorem testBit_bitsInSteps (step : Nat) {k count : Nat} (h : k ≤ count) :
    (bitsInSteps step count).testBit (step * k) = true := by
  induction count generalizing k with
  | zero =>
    obtain rfl : k = 0 := by omega
    simp [bitsInSteps]
  | succ count ih =>
    rw [bitsInSteps, Nat.testBit_or, Nat.testBit_shiftLeft]
    cases k with
    | zero => simp
    | succ k =>
      have hrest := ih (Nat.le_of_succ_le_succ h)
      simp [Nat.mul_succ, hrest]

/-- The bit of a code point on a range is set. -/
theorem testBit_bitsFrom (h : range.covers code = true) (start : Nat) :
    (range.bitsFrom start).testBit (start + (code - range.first)) = true := by
  obtain ⟨hfirst, hlast, hstep⟩ := covers_iff.1 h
  have hcount : (code - range.first) / range.step ≤ (range.last - range.first) / range.step :=
    Nat.div_le_div_right (by omega)
  have hbit := testBit_bitsInSteps range.step hcount
  rw [Nat.mul_div_cancel' (Nat.dvd_of_mod_eq_zero hstep)] at hbit
  simpa [bitsFrom, Nat.testBit_shiftLeft] using hbit

/-- The bits of some ranges together, those of each one from a place of its own on. -/
def bitsOf (start : CaseRange → Nat) (ranges : List CaseRange) : Nat :=
  ranges.foldr (fun range bits => range.bitsFrom (start range) ||| bits) 0

theorem testBit_bitsOf {ranges : List CaseRange} (hmem : range ∈ ranges)
    (h : range.covers code = true) (start : CaseRange → Nat) :
    (bitsOf start ranges).testBit (start range + (code - range.first)) = true := by
  induction ranges with
  | nil => cases hmem
  | cons head rest ih =>
    rw [bitsOf, List.foldr_cons, Nat.testBit_or, Bool.or_eq_true]
    rcases List.mem_cons.1 hmem with rfl | hrest
    · exact .inl (testBit_bitsFrom h _)
    · exact .inr (ih hrest)

end CaseRange

/-- The code points that the ranges lead to, as bits of a number. -/
def lowerBits : Nat :=
  CaseRange.bitsOf CaseRange.image lowerRanges

/-- Some stretches of code points: they hold the capitals of ASCII, all white space, the capital I
with a dot and the surrogates. -/
def avoidedStretches : List (Nat × Nat) :=
  [(0, 0x5A), (0x85, 0xA0), (0x130, 0x130), (0x1680, 0x1680), (0x2000, 0x205F), (0x3000, 0x3000),
    (0xD800, 0xDFFF)]

/-- A stretch of code points as bits of a number. -/
def bitsBetween (first last : Nat) : Nat :=
  (1 <<< (last - first + 1) - 1) <<< first

theorem testBit_bitsBetween {first last code : Nat} (hfirst : first ≤ code) (hlast : code ≤ last) :
    (bitsBetween first last).testBit code = true := by
  have hcode : code - first < last - first + 1 := by omega
  rw [bitsBetween, Nat.testBit_shiftLeft, Nat.one_shiftLeft, Nat.testBit_two_pow_sub_one]
  simp [hfirst, hcode]

/-- No range leads to a code point on a range, to one on the stretches or beyond all characters. -/
theorem lowerBits_apart :
    lowerBits &&& CaseRange.bitsOf CaseRange.first lowerRanges = 0 ∧
      (∀ stretch ∈ avoidedStretches, lowerBits &&& bitsBetween stretch.1 stretch.2 = 0) ∧
      lowerBits >>> 0x110000 = 0 := by
  decide +kernel

section

variable {range : CaseRange} (hmem : range ∈ lowerRanges) {code : Nat}
  (hcovers : range.covers code = true)
include hmem hcovers

theorem testBit_lowerBits : lowerBits.testBit (range.lower code) = true :=
  CaseRange.testBit_bitsOf hmem hcovers CaseRange.image

theorem testBit_lower_of_and_eq_zero {bits : Nat} (h : lowerBits &&& bits = 0) :
    bits.testBit (range.lower code) = false := by
  have hboth := congrArg (Nat.testBit · (range.lower code)) h
  simpa [testBit_lowerBits hmem hcovers] using hboth

/-- No range leads to a code point on a range. -/
theorem not_covers_lower {other : CaseRange} (hother : other ∈ lowerRanges) :
    other.covers (range.lower code) = false := by
  by_contra hlower
  rw [Bool.not_eq_false] at hlower
  have hbit := CaseRange.testBit_bitsOf hother hlower CaseRange.first
  rw [Nat.add_sub_cancel' (CaseRange.covers_iff.1 hlower).1,
    testBit_lower_of_and_eq_zero hmem hcovers lowerBits_apart.1] at hbit
  cases hbit

/-- No range leads to a code point on the stretches. -/
theorem lower_avoids {first last : Nat} (hstretch : (first, last) ∈ avoidedStretches) :
    range.lower code < first ∨ last < range.lower code := by
  by_contra hwithin
  have hbit : (bitsBetween first last).testBit (range.lower code) = true :=
    testBit_bitsBetween (by omega) (by omega)
  rw [testBit_lower_of_and_eq_zero hmem hcovers (lowerBits_apart.2.1 _ hstretch)] at hbit
  cases hbit

/-- A range leads to a character, which has the code point that it gives. -/
theorem toNat_ofNat_lower : (Char.ofNat (range.lower code)).toNat = range.lower code := by
  have hsurrogates : range.lower code < 0xD800 ∨ 0xDFFF < range.lower code :=
    lower_avoids hmem hcovers (by decide)
  have hlimit : range.lower code < 0x110000 := by
    by_contra hge
    have hbit := testBit_lowerBits hmem hcovers
    rw [← Nat.add_sub_cancel' (Nat.le_of_not_lt hge), ← Nat.testBit_shiftRight,
      lowerBits_apart.2.2, Nat.zero_testBit] at hbit
    cases hbit
  have hvalid : (range.lower code).isValidChar := by
    unfold Nat.isValidChar
    omega
  rw [Char.ofNat, dif_pos hvalid]
  rfl

end

/-! ## Characters -/

/-- Capitals of ASCII become letters that stay, what lies behind them stays, and nothing but white
space becomes white space. -/
theorem lowerChar_ascii : ∀ n < 0x80,
    lowerChar (Char.ofNat n).toLower = [(Char.ofNat n).toLower] ∧
      (0x5A < n → lowerChar (Char.ofNat n) = [Char.ofNat n]) ∧
      (isBlank (Char.ofNat n).toLower = true → isBlank (Char.ofNat n) = true) := by
  decide +kernel

/-- The capital sigma has a small form of its own, while the final sigma stays, as does the dot that
the capital I leaves behind. -/
theorem lowerChar_sigmas_and_dot :
    lowerChar 'Σ' = ['σ'] ∧ lowerChar 'ς' = ['ς'] ∧
      lowerChar (Char.ofNat 0x307) = [Char.ofNat 0x307] := by
  decide +kernel

/-- A character is lower-cased by the ASCII rule, by the rule for the capital I with a dot, or by
the range that it lies on. Any other one stays. -/
theorem lowerChar_cases (c : Char) :
    (c.toNat < 0x80 ∧ lowerChar c = [c.toLower]) ∨
      (c.toNat = 0x130 ∧ lowerChar c = ['i', Char.ofNat 0x307]) ∨
      (∃ range ∈ lowerRanges, range.covers c.toNat = true ∧
        lowerChar c = [Char.ofNat (range.lower c.toNat)]) ∨
      lowerChar c = [c] := by
  unfold lowerChar
  by_cases hascii : c.toNat < 0x80
  · exact .inl ⟨hascii, if_pos hascii⟩
  · rw [if_neg hascii]
    by_cases hdotted : c.toNat = 0x130
    · exact .inr (.inl ⟨hdotted, if_pos (beq_iff_eq.2 hdotted)⟩)
    · rw [if_neg (mt beq_iff_eq.1 hdotted)]
      cases hrange : lowerRanges.find? (·.covers c.toNat) with
      | none => exact .inr (.inr (.inr rfl))
      | some range =>
        have hcovers : range.covers c.toNat = true := by simpa using List.find?_some hrange
        exact .inr (.inr (.inl ⟨range, List.mem_of_find?_eq_some hrange, hcovers, rfl⟩))

/-- What a range leads to is in lower case. -/
theorem lowerChar_ofNat_lower {range : CaseRange} (hmem : range ∈ lowerRanges) {code : Nat}
    (hcovers : range.covers code = true) :
    lowerChar (Char.ofNat (range.lower code)) = [Char.ofNat (range.lower code)] := by
  have hcode := toNat_ofNat_lower hmem hcovers
  have hcapital : range.lower code < 0 ∨ 0x5A < range.lower code :=
    lower_avoids hmem hcovers (by decide)
  have hdotted : range.lower code < 0x130 ∨ 0x130 < range.lower code :=
    lower_avoids hmem hcovers (by decide)
  by_cases hascii : range.lower code < 0x80
  · exact (lowerChar_ascii _ hascii).2.1 (by omega)
  · have hnone : lowerRanges.find? (·.covers (range.lower code)) = none := by
      refine List.find?_eq_none.2 fun other hother => ?_
      rw [not_covers_lower hmem hcovers hother]
      exact Bool.false_ne_true
    unfold lowerChar
    rw [hcode, if_neg hascii, if_neg (by rw [beq_iff_eq]; omega), hnone]

/-- What a character is lower-cased to is in lower case. -/
theorem lowerChar_of_mem {c d : Char} (h : d ∈ lowerChar c) : lowerChar d = [d] := by
  rcases lowerChar_cases c with ⟨hascii, heq⟩ | ⟨-, heq⟩ | ⟨range, hmem, hcovers, heq⟩ | heq
  · rw [heq] at h
    rw [List.mem_singleton.1 h]
    simpa using (lowerChar_ascii c.toNat hascii).1
  · rw [heq] at h
    rcases List.mem_pair.1 h with rfl | rfl
    · rfl
    · exact lowerChar_sigmas_and_dot.2.2
  · rw [heq] at h
    rw [List.mem_singleton.1 h]
    exact lowerChar_ofNat_lower hmem hcovers
  · rw [heq] at h
    rw [List.mem_singleton.1 h, heq]

/-- White space lies on the stretches that no range leads to. -/
theorem exists_avoidedStretch {c : Char} (h : isBlank c = true) :
    ∃ first last, (first, last) ∈ avoidedStretches ∧ first ≤ c.toNat ∧ c.toNat ≤ last := by
  simp only [isBlank, Bool.or_eq_true, Bool.and_eq_true, decide_eq_true_eq, beq_iff_eq] at h
  have hstretch : ∃ stretch ∈ avoidedStretches, stretch.1 ≤ c.toNat ∧ c.toNat ≤ stretch.2 := by
    simp only [avoidedStretches, List.mem_cons, List.not_mem_nil, or_false, exists_eq_or_imp,
      exists_eq_left]
    omega
  obtain ⟨⟨first, last⟩, hmem, hbounds⟩ := hstretch
  exact ⟨first, last, hmem, hbounds⟩

/-- Nothing else becomes white space. -/
theorem isBlank_of_mem_lowerChar {c d : Char} (h : d ∈ lowerChar c) (hblank : isBlank d = true) :
    isBlank c = true := by
  rcases lowerChar_cases c with ⟨hascii, heq⟩ | ⟨-, heq⟩ | ⟨range, hmem, hcovers, heq⟩ | heq
  · rw [heq] at h
    rw [List.mem_singleton.1 h] at hblank
    simpa using (lowerChar_ascii c.toNat hascii).2.2 (by simpa using hblank)
  · rw [heq] at h
    rcases List.mem_pair.1 h with rfl | rfl
    · exact absurd hblank (by decide)
    · exact absurd hblank (by decide)
  · -- a range does not lead to white space
    rw [heq] at h
    obtain ⟨first, last, hstretch, hfirst, hlast⟩ := exists_avoidedStretch hblank
    rw [List.mem_singleton.1 h, toNat_ofNat_lower hmem hcovers] at hfirst hlast
    have hside := lower_avoids hmem hcovers hstretch
    omega
  · rw [heq] at h
    rwa [← List.mem_singleton.1 h]

/-! ## Texts -/

/-- The lower-case form of a character between two texts is that of the character by itself, but
for a final sigma. -/
theorem mem_lowerImage {before after : List Char} {c d : Char} (h : d ∈ lowerImage before c after) :
    d = 'ς' ∨ d ∈ lowerChar c := by
  unfold lowerImage at h
  split at h
  · rename_i hsigma
    obtain rfl : c = 'Σ' := Char.toNat_inj.1 (beq_iff_eq.1 hsigma)
    rw [List.mem_singleton, lowerSigma] at h
    split at h
    · exact .inl h
    · rw [lowerChar_sigmas_and_dot.1]
      exact .inr (h ▸ List.mem_cons_self)
  · exact .inr h

theorem lowerChar_of_mem_lowerFrom {before text : List Char} {c : Char}
    (h : c ∈ lowerFrom before [] text) : lowerChar c = [c] := by
  induction text generalizing before with
  | nil => exact absurd h (by simp [lowerFrom])
  | cons d rest ih =>
    rw [lowerFrom_cons, List.mem_append] at h
    rcases h with himage | hrest
    · rcases mem_lowerImage himage with rfl | hmem
      · exact lowerChar_sigmas_and_dot.2.1
      · exact lowerChar_of_mem hmem
    · exact ih hrest

/-- A text of characters in lower case stays, whatever stands before it. -/
theorem lowerFrom_eq_self {text : List Char} (h : ∀ c ∈ text, lowerChar c = [c])
    (before : List Char) : lowerFrom before [] text = text := by
  induction text generalizing before with
  | nil => rfl
  | cons c rest ih =>
    have hc := h c List.mem_cons_self
    have hsigma : c.toNat ≠ 0x3A3 := by
      intro hcode
      obtain rfl : c = 'Σ' := Char.toNat_inj.1 hcode
      rw [lowerChar_sigmas_and_dot.1] at hc
      exact absurd hc (by decide)
    rw [lowerFrom_cons, lowerImage, if_neg (mt beq_iff_eq.1 hsigma), hc,
      ih (fun d hd => h d (List.mem_cons_of_mem c hd))]
    rfl

/-- Lower-casing a second time changes nothing. -/
theorem lower_lower (text : String) : lower (lower text) = lower text := by
  have hlower : ∀ c ∈ lowerFrom [] [] text.toList, lowerChar c = [c] :=
    fun c hc => lowerChar_of_mem_lowerFrom hc
  apply String.toList_inj.1
  simpa only [lower, String.toList_ofList] using lowerFrom_eq_self hlower []

/-! ## White space at the ends -/

/-- A text is trimmed if it neither starts nor ends with white space. -/
theorem trim_eq_self {text : List Char} (hhead : text.head?.any isBlank = false)
    (hlast : text.getLast?.any isBlank = false) : trim text = text := by
  have hstays : ∀ run : List Char, run.head?.any isBlank = false → run.dropWhile isBlank = run :=
    fun _ => List.dropWhile_append_of_head? (List.forall_mem_nil _)
  rw [trim, hstays text hhead, trimEnd, hstays, List.reverse_reverse]
  rwa [List.head?_reverse]

/-- What is no white space does not become any. -/
theorem isBlank_lowerImage {c : Char} (h : isBlank c = false) (before after : List Char) :
    ∀ d ∈ lowerImage before c after, isBlank d = false := by
  intro d hd
  rcases mem_lowerImage hd with rfl | hmem
  · decide
  · exact Bool.eq_false_iff.2 fun hblank =>
      Bool.eq_false_iff.1 h (isBlank_of_mem_lowerChar hmem hblank)

/-- Lower-casing puts no white space at the start of a text. -/
theorem head?_lower {text : String} (h : text.toList.head?.any isBlank = false) :
    (lower text).toList.head?.any isBlank = false := by
  rw [toList_lower]
  cases htext : text.toList with
  | nil => rfl
  | cons c rest =>
    rw [htext, List.head?_cons, Option.any_some] at h
    rw [lowerWithin]
    exact List.head?_any_append_eq_false (lowerImage_ne_nil _ _ _) (isBlank_lowerImage h _ _) _

/-- It puts none at the end either. -/
theorem getLast?_lower {text : String} (h : text.toList.getLast?.any isBlank = false) :
    (lower text).toList.getLast?.any isBlank = false := by
  rw [toList_lower]
  rcases List.eq_nil_or_concat' text.toList with htext | ⟨front, c, htext⟩
  · rw [htext]
    rfl
  · rw [htext, List.getLast?_concat, Option.any_some] at h
    -- read from its end, the form starts with that of the last character
    rw [htext, lowerWithin_concat, List.getLast?_eq_head?_reverse, List.reverse_append]
    refine List.head?_any_append_eq_false ?_ (fun d hd => ?_) _
    · exact mt List.reverse_eq_nil_iff.1 (lowerImage_ne_nil _ _ _)
    · exact isBlank_lowerImage h _ _ d (List.mem_reverse.1 hd)

/-- What is trimmed is trimmed in lower case too. -/
theorem trimString_lower (text : String) :
    trimString (lower (trimString text)) = lower (trimString text) := by
  have hhead : (trimString text).toList.head?.any isBlank = false := by
    rw [trimString, String.toList_ofList, Option.any_eq_false]
    exact fun c hc => Bool.eq_false_iff.2 fun hblank => head?_trim_ne _ hblank hc
  have hlast : (trimString text).toList.getLast?.any isBlank = false := by
    rw [trimString, String.toList_ofList, Option.any_eq_false]
    exact fun c hc => Bool.eq_false_iff.2 fun hblank => getLast?_trimEnd_ne _ hblank hc
  rw [trimString, trim_eq_self (head?_lower hhead) (getLast?_lower hlast), String.ofList_toList]

end CodeSurvey.Text
