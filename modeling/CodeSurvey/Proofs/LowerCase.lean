import CodeSurvey.Text.Lowercase
import Mathlib.Data.List.Basic
import Mathlib.Tactic.SplitIfs

/-!
# Lower case and slashes

A slash has no case, and no letter is passed over at it. So a text is lower-cased stretch by stretch
between its slashes, and lower-casing neither makes nor removes one.

## Key results

- `lower_eq_empty_iff`: only the empty text has an empty lower-case form
- `lower_append_slash`: the texts on both sides of a slash are lower-cased by themselves
- `slash_mem_lower_iff`: a text holds a slash exactly if its lower-case form does
- `lower_intercalate`: names with slashes between them are lower-cased name by name
-/

namespace CodeSurvey.Text

/-- The lower-case form of a character between two texts, the first of them reversed. -/
def lowerImage (before : List Char) (c : Char) (after : List Char) : List Char :=
  if c.toNat == 0x3A3 then [lowerSigma before after] else lowerChar c

theorem lowerFrom_eq_append (before done text : List Char) :
    lowerFrom before done text = done.reverse ++ lowerFrom before [] text := by
  induction text generalizing before done with
  | nil => simp [lowerFrom]
  | cons c rest ih =>
    rw [lowerFrom, lowerFrom, ih, ih _ (_ ++ [])]
    simp

theorem lowerFrom_cons (before : List Char) (c : Char) (rest : List Char) :
    lowerFrom before [] (c :: rest) =
      lowerImage before c rest ++ lowerFrom (c :: before) [] rest := by
  rw [lowerFrom, lowerFrom_eq_append]
  simp [lowerImage]

theorem lowerImage_ne_nil (before : List Char) (c : Char) (after : List Char) :
    lowerImage before c after ≠ [] := by
  rw [lowerImage, lowerChar]
  split_ifs
  · exact List.cons_ne_nil _ _
  · exact List.cons_ne_nil _ _
  · exact List.cons_ne_nil _ _
  · split <;> exact List.cons_ne_nil _ _

/-- Only the empty text has an empty lower-case form. -/
theorem lower_eq_empty_iff (text : String) : lower text = "" ↔ text = "" := by
  rw [lower, ← String.toList_inj, ← String.toList_inj, String.toList_ofList, String.toList_empty]
  cases text.toList with
  | nil => exact iff_of_true rfl rfl
  | cons c rest =>
    rw [lowerFrom_cons]
    exact iff_of_false (by simp [lowerImage_ne_nil]) (List.cons_ne_nil c rest)

/-! ## A slash ends a word -/

theorem meetsCased_append_slash (front back : List Char) :
    meetsCased (front ++ '/' :: back) = meetsCased front := by
  have hignorable : isCaseIgnorable '/' = false := by decide +kernel
  have hcased : isCased '/' = false := by decide +kernel
  simp only [meetsCased, List.dropWhile_append, List.dropWhile_cons, hignorable]
  -- the search for a letter ends at the slash at the latest
  cases hfront : front.dropWhile isCaseIgnorable with
  | nil => simp [hcased]
  | cons c rest => simp

theorem lowerImage_behind_slash (before beyond : List Char) (c : Char) (after : List Char) :
    lowerImage (before ++ '/' :: beyond) c after = lowerImage before c after := by
  simp only [lowerImage, lowerSigma, meetsCased_append_slash]

theorem lowerImage_before_slash (before : List Char) (c : Char) (after beyond : List Char) :
    lowerImage before c (after ++ '/' :: beyond) = lowerImage before c after := by
  simp only [lowerImage, lowerSigma, meetsCased_append_slash]

theorem lowerFrom_behind_slash (before beyond text : List Char) :
    lowerFrom (before ++ '/' :: beyond) [] text = lowerFrom before [] text := by
  induction text generalizing before with
  | nil => rfl
  | cons c rest ih =>
    rw [lowerFrom_cons, lowerFrom_cons, lowerImage_behind_slash]
    exact congrArg _ (ih (c :: before))

theorem lowerFrom_append_slash (before front back : List Char) :
    lowerFrom before [] (front ++ '/' :: back) =
      lowerFrom before [] front ++ '/' :: lowerFrom [] [] back := by
  induction front generalizing before with
  | nil =>
    have hslash : lowerImage before '/' back = ['/'] := by
      have hchar : lowerChar '/' = ['/'] := by decide +kernel
      rw [lowerImage, if_neg (by decide), hchar]
    rw [List.nil_append, lowerFrom_cons, hslash]
    exact congrArg _ (lowerFrom_behind_slash [] before back)
  | cons c rest ih =>
    rw [List.cons_append, lowerFrom_cons, lowerFrom_cons, ih, List.append_assoc,
      lowerImage_before_slash]

/-- The texts on both sides of a slash are lower-cased by themselves. -/
theorem lower_append_slash (front back : String) :
    lower (front ++ "/" ++ back) = lower front ++ "/" ++ lower back := by
  have htext : (front ++ "/" ++ back).toList = front.toList ++ '/' :: back.toList := by simp
  apply String.toList_inj.1
  rw [lower, htext, lowerFrom_append_slash]
  simp [lower]

/-- Names with slashes between them are lower-cased name by name. -/
theorem lower_intercalate (names : List String) :
    lower ("/".intercalate names) = "/".intercalate (names.map lower) := by
  induction names with
  | nil => rw [String.intercalate_nil, List.map_nil, String.intercalate_nil]; rfl
  | cons name rest ih =>
    cases rest with
    | nil => simp
    | cons next rest =>
      rw [String.intercalate_cons_cons, lower_append_slash, ih]
      exact String.intercalate_cons_cons.symm

/-! ## No other character becomes a slash -/

private theorem eq_of_ofNat_eq_slash {code : Nat} (h : Char.ofNat code = '/') :
    code = '/'.toNat := by
  by_cases hvalid : code.isValidChar
  · rw [Char.ofNat, dif_pos hvalid] at h
    exact congrArg Char.toNat h
  · rw [Char.ofNat, dif_neg hvalid] at h
    exact absurd h (by decide)

theorem eq_slash_of_slash_mem_lowerChar {c : Char} (h : '/' ∈ lowerChar c) : c = '/' := by
  rw [lowerChar] at h
  split at h
  · -- an ASCII character
    rename_i hascii
    have hall : ∀ n < 0x80, (Char.ofNat n).toLower = '/' → n = '/'.toNat := by decide +kernel
    have hlower : (Char.ofNat c.toNat).toLower = '/' := by
      rw [Char.ofNat_toNat]
      exact (List.mem_singleton.1 h).symm
    exact Char.toNat_inj.1 (hall c.toNat hascii hlower)
  · split at h
    · exact absurd h (by decide)
    · split at h
      · -- no range of the table leads down to the slash
        rename_i range hrange
        have hhigh : ∀ range ∈ lowerRanges, '/'.toNat < range.image := by decide +kernel
        have hlow := hhigh range (List.mem_of_find?_eq_some hrange)
        have hcode := eq_of_ofNat_eq_slash (List.mem_singleton.1 h).symm
        rw [CaseRange.lower] at hcode
        omega
      · exact (List.mem_singleton.1 h).symm

/-- A text holds a slash exactly if its lower-case form does. -/
theorem slash_mem_lower_iff (text : String) : '/' ∈ (lower text).toList ↔ '/' ∈ text.toList := by
  have hfrom : ∀ before text : List Char, '/' ∈ lowerFrom before [] text → '/' ∈ text := by
    intro before text
    induction text generalizing before with
    | nil => exact id
    | cons c rest ih =>
      rw [lowerFrom_cons, List.mem_append, lowerImage]
      rintro (himage | hrest)
      · split at himage
        · rw [List.mem_singleton, lowerSigma] at himage
          split at himage <;> exact absurd himage (by decide)
        · rw [eq_slash_of_slash_mem_lowerChar himage]
          exact List.mem_cons_self
      · exact List.mem_cons_of_mem c (ih _ hrest)
  rw [lower, String.toList_ofList]
  refine ⟨hfrom [] text.toList, fun h => ?_⟩
  -- conversely, a slash separates two texts that are lower-cased by themselves
  obtain ⟨front, back, htext⟩ := List.append_of_mem h
  rw [htext, lowerFrom_append_slash]
  exact List.mem_append_right _ List.mem_cons_self

end CodeSurvey.Text
