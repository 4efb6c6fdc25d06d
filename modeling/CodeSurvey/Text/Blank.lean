/-!
# White space

The characters with the Unicode property White_Space, and trimming by them. `trim_eq_nil_iff` says
that a text trims to nothing exactly when it is blank throughout.
-/

namespace CodeSurvey.Text

/-- Holds for the twenty-five characters with the Unicode property White_Space. -/
def isBlank (c : Char) : Bool :=
  let n := c.toNat
  (9 ≤ n && n ≤ 13) || n == 0x20 || n == 0x85 || n == 0xA0 || n == 0x1680
    || (0x2000 ≤ n && n ≤ 0x200A) || n == 0x2028 || n == 0x2029 || n == 0x202F
    || n == 0x205F || n == 0x3000

/-- A text without the white space at its end. -/
def trimEnd (text : List Char) : List Char :=
  (text.reverse.dropWhile isBlank).reverse

/-- A text without the white space at its two ends. -/
def trim (text : List Char) : List Char :=
  trimEnd (text.dropWhile isBlank)

/-- A string without the white space at its two ends. -/
def trimString (text : String) : String :=
  String.ofList (trim text.toList)

theorem dropWhile_eq_nil_iff_all (p : Char → Bool) (text : List Char) :
    text.dropWhile p = [] ↔ ∀ c ∈ text, p c = true := by
  induction text with
  | nil => simp
  | cons c r ih => by_cases h : p c <;> simp [h, ih]

/-- Nothing is trimmed in front of a character that is not blank. -/
theorem trimEnd_cons_of_not_blank {c : Char} (h : isBlank c = false) (text : List Char) :
    trimEnd (c :: text) = c :: trimEnd text := by
  simp only [trimEnd, List.reverse_cons, List.dropWhile_append, List.isEmpty_iff]
  split
  · simp_all
  · simp

/-- A blank character in front is trimmed with all that follows, or stays. -/
theorem trimEnd_cons_of_blank {c : Char} (h : isBlank c = true) (text : List Char) :
    trimEnd (c :: text) = if trimEnd text = [] then [] else c :: trimEnd text := by
  simp only [trimEnd, List.reverse_cons, List.dropWhile_append, List.isEmpty_iff,
    List.reverse_eq_nil_iff]
  split <;> simp [h]

/-- A trimmed text does not start with white space. -/
theorem head?_trim_ne (text : List Char) {c : Char} (hc : isBlank c = true) :
    (trim text).head? ≠ some c := by
  have hhead := List.head?_dropWhile_not isBlank text
  cases hdrop : text.dropWhile isBlank with
  | nil => simp [trim, hdrop, trimEnd]
  | cons d rest =>
    have hd : isBlank d = false := by simpa [hdrop] using hhead
    rw [trim, hdrop, trimEnd_cons_of_not_blank hd, List.head?_cons]
    rintro ⟨⟩
    rw [hc] at hd
    cases hd

/-- It does not end with white space either. -/
theorem getLast?_trimEnd_ne (text : List Char) {c : Char} (hc : isBlank c = true) :
    (trimEnd text).getLast? ≠ some c := by
  have hhead := List.head?_dropWhile_not isBlank text.reverse
  rw [trimEnd, List.getLast?_reverse]
  intro hlast
  simp [hlast, hc] at hhead

theorem trim_eq_nil_iff (text : List Char) : trim text = [] ↔ ∀ c ∈ text, isBlank c = true := by
  simp only [trim, trimEnd, List.reverse_eq_nil_iff, dropWhile_eq_nil_iff_all, List.mem_reverse]
  constructor
  · intro h
    have : text.dropWhile isBlank = [] := by
      cases hd : text.dropWhile isBlank with
      | nil => rfl
      | cons c r =>
        have h1 := h c (by simp [hd])
        have h2 : ¬ isBlank c = true := by
          have := List.head_dropWhile_not (p := isBlank) (l := text) (by simp [hd])
          simpa [hd] using this
        exact absurd h1 h2
    exact (dropWhile_eq_nil_iff_all _ _).1 this
  · intro h c hc
    exact h c (List.dropWhile_sublist _ |>.mem hc)

end CodeSurvey.Text
