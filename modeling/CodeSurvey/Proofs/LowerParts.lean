import CodeSurvey.Proofs.LowerCase

/-!
# Lower case of a part of a text

A capital sigma is lower-cased by what stands around it, any other character by itself. So a part of
a text has the lower-case form there that it has alone exactly if its capital sigmas end words there
as they do alone.

## Key results

- `toList_lower_of_append`: a text is lower-cased part by part
- `lowerWithin_eq_lower_iff`: when a part has the lower-case form that it has alone
- `keepsWordEnds_of_not_mem` / `keepsWordEnds_of_slashes`: without a sigma, and between slashes
-/

namespace CodeSurvey.Text

/-- The lower-case form that `part` has in a text, between `front` and `back`. -/
def lowerWithin : (front part back : List Char) → List Char
  | _, [], _ => []
  | front, c :: rest, back =>
    lowerImage front.reverse c (rest ++ back) ++ lowerWithin (front ++ [c]) rest back

/-- Whether a capital sigma ends a word between two texts: a letter stands before it and none
behind it, marks passed over. -/
def endsWord (front back : List Char) : Bool :=
  meetsCased front.reverse && !meetsCased back

/-- Every capital sigma of `part` ends a word between `front` and `back` exactly if it does in
`part` alone. -/
def KeepsWordEnds (front part back : List Char) : Prop :=
  ∀ start rest, part = start ++ 'Σ' :: rest →
    endsWord (front ++ start) (rest ++ back) = endsWord start rest

theorem lowerFrom_append (front part back : List Char) :
    lowerFrom front.reverse [] (part ++ back) =
      lowerWithin front part back ++ lowerFrom (front ++ part).reverse [] back := by
  induction part generalizing front with
  | nil => rw [lowerWithin, List.append_nil]; rfl
  | cons c rest ih =>
    have hnext := ih (front ++ [c])
    rw [List.reverse_append, List.reverse_singleton, List.singleton_append, List.append_assoc,
      List.singleton_append] at hnext
    rw [List.cons_append, lowerFrom_cons, hnext, lowerWithin, List.append_assoc]

/-- A text is lower-cased part by part, each part between those around it. -/
theorem toList_lower_of_append {text : String} {front part back : List Char}
    (h : text.toList = front ++ part ++ back) :
    (lower text).toList = lowerWithin [] front (part ++ back) ++ lowerWithin front part back ++
      lowerWithin (front ++ part) back [] := by
  have hfront := lowerFrom_append [] front (part ++ back)
  have hpart := lowerFrom_append front part back
  have hback := lowerFrom_append (front ++ part) back []
  rw [List.append_nil, lowerFrom, List.reverse_nil, List.append_nil] at hback
  rw [List.nil_append, List.reverse_nil] at hfront
  rw [lower, String.toList_ofList, h, List.append_assoc, hfront, hpart, hback, List.append_assoc]

theorem toList_lower (text : String) : (lower text).toList = lowerWithin [] text.toList [] := by
  have hall := lowerFrom_append [] text.toList []
  rw [List.append_nil, lowerFrom, List.reverse_nil, List.append_nil] at hall
  rw [lower, String.toList_ofList, hall]

/-! ## Final sigma -/

theorem lowerImage_of_ne {c : Char} (h : c ≠ 'Σ') (before after : List Char) :
    lowerImage before c after = lowerChar c := by
  rw [lowerImage, if_neg]
  rw [beq_iff_eq]
  exact fun heq => h (Char.toNat_inj.1 heq)

theorem lowerImage_sigma (front back : List Char) :
    lowerImage front.reverse 'Σ' back = if endsWord front back then ['ς'] else ['σ'] := by
  rw [lowerImage, if_pos (by decide), lowerSigma, endsWord]
  split <;> rfl

/-- Any other character is lower-cased by itself. -/
theorem lowerImage_eq_iff (c : Char) (front back start rest : List Char) :
    lowerImage front.reverse c back = lowerImage start.reverse c rest ↔
      (c = 'Σ' → endsWord front back = endsWord start rest) := by
  by_cases hc : c = 'Σ'
  · subst hc
    rw [lowerImage_sigma, lowerImage_sigma]
    cases endsWord front back <;> cases endsWord start rest <;> decide
  · rw [lowerImage_of_ne hc, lowerImage_of_ne hc]
    simp [hc]

theorem length_lowerImage (c : Char) (front back start rest : List Char) :
    (lowerImage front.reverse c back).length = (lowerImage start.reverse c rest).length := by
  by_cases hc : c = 'Σ'
  · subst hc
    rw [lowerImage_sigma, lowerImage_sigma]
    split <;> split <;> rfl
  · rw [lowerImage_of_ne hc, lowerImage_of_ne hc]

/-- What holds of every sigma of a text holds of the first character, if it is one, and of every
sigma behind it. -/
theorem forall_sigma_cons_iff {P : List Char → List Char → Prop} (c : Char) (rest : List Char) :
    (∀ start behind, c :: rest = start ++ 'Σ' :: behind → P start behind) ↔
      (c = 'Σ' → P [] rest) ∧
        ∀ start behind, rest = start ++ 'Σ' :: behind → P (c :: start) behind := by
  constructor
  · intro h
    refine ⟨?_, fun start behind heq => h (c :: start) behind (by rw [heq, List.cons_append])⟩
    rintro rfl
    exact h [] rest rfl
  · rintro ⟨hhere, hrest⟩ start behind heq
    cases start with
    | nil =>
      obtain ⟨hc, rfl⟩ := List.cons.inj heq
      exact hhere hc
    | cons d start =>
      obtain ⟨rfl, hbehind⟩ := List.cons.inj heq
      exact hrest start behind hbehind

/-- A part of a text has the lower-case form there that it has alone exactly if its sigmas end words
as they do alone. -/
theorem lowerWithin_append_eq_iff (front start part back : List Char) :
    lowerWithin (front ++ start) part back = lowerWithin start part [] ↔
      ∀ more rest, part = more ++ 'Σ' :: rest →
        endsWord (front ++ start ++ more) (rest ++ back) = endsWord (start ++ more) rest := by
  induction part generalizing start with
  | nil => simp [lowerWithin]
  | cons c rest ih =>
    have hrest :
        lowerWithin (front ++ start ++ [c]) rest back = lowerWithin (start ++ [c]) rest [] ↔
          ∀ more behind, rest = more ++ 'Σ' :: behind →
            endsWord (front ++ start ++ c :: more) (behind ++ back) =
              endsWord (start ++ c :: more) behind := by
      simpa using ih (start ++ [c])
    rw [lowerWithin, lowerWithin, forall_sigma_cons_iff, List.append_nil (front ++ start),
      List.append_nil start, ← hrest, ← lowerImage_eq_iff, List.append_nil rest]
    constructor
    · exact fun heq => List.append_inj heq (length_lowerImage c _ _ _ _)
    · rintro ⟨hhere, hbehind⟩
      rw [hhere, hbehind]

theorem lowerWithin_eq_lower_iff (front back : List Char) (part : String) :
    lowerWithin front part.toList back = (lower part).toList ↔
      KeepsWordEnds front part.toList back := by
  have hpart := lowerWithin_append_eq_iff front [] part.toList back
  rw [List.append_nil] at hpart
  rw [toList_lower, hpart]
  rfl

theorem keepsWordEnds_of_not_mem {front part back : List Char} (h : 'Σ' ∉ part) :
    KeepsWordEnds front part back := by
  rintro start rest rfl
  exact absurd (List.mem_append_right start List.mem_cons_self) h

/-- Between slashes words end where they do without anything around. -/
theorem keepsWordEnds_of_slashes {front back : List Char} (part : List Char)
    (hfront : front = [] ∨ front.getLast? = some '/') (hback : back = [] ∨ back.head? = some '/') :
    KeepsWordEnds front part back := by
  intro start rest _
  have hbefore : meetsCased (front ++ start).reverse = meetsCased start.reverse := by
    rcases hfront with rfl | hslash
    · rw [List.nil_append]
    · obtain ⟨beyond, rfl⟩ := List.getLast?_eq_some_iff.1 hslash
      simpa using meetsCased_append_slash start.reverse beyond.reverse
  have hbehind : meetsCased (rest ++ back) = meetsCased rest := by
    rcases hback with rfl | hslash
    · rw [List.append_nil]
    · obtain ⟨beyond, rfl⟩ := List.head?_eq_some_iff.1 hslash
      exact meetsCased_append_slash rest beyond
  rw [endsWord, endsWord, hbefore, hbehind]

/-! ## Marks -/

/-- The marks that can set a name apart from what stands around it. -/
def isMark (c : Char) : Bool :=
  ['/', '@', ':', '.'].contains c

theorem lowerImage_mark {mark : Char} (h : isMark mark = true) (before after : List Char) :
    lowerImage before mark after = [mark] := by
  have hmark : mark = '/' ∨ mark = '@' ∨ mark = ':' ∨ mark = '.' := by
    simpa [isMark] using h
  rcases hmark with rfl | rfl | rfl | rfl <;>
    rw [lowerImage_of_ne (by decide), lowerChar, if_pos (by decide)] <;> rfl

theorem lowerWithin_concat (front part back : List Char) (c : Char) :
    lowerWithin front (part ++ [c]) back =
      lowerWithin front part (c :: back) ++ lowerImage (front ++ part).reverse c back := by
  induction part generalizing front with
  | nil => simp [lowerWithin]
  | cons d rest ih =>
    rw [List.cons_append, lowerWithin, lowerWithin, ih]
    simp

/-- A mark stays where it is. -/
theorem getLast?_lowerWithin {part : List Char} {mark : Char} (h : isMark mark = true)
    (hpart : part.getLast? = some mark) (front back : List Char) :
    (lowerWithin front part back).getLast? = some mark := by
  obtain ⟨start, rfl⟩ := List.getLast?_eq_some_iff.1 hpart
  rw [lowerWithin_concat, lowerImage_mark h, List.getLast?_concat]

theorem head?_lowerWithin {part : List Char} {mark : Char} (h : isMark mark = true)
    (hpart : part.head? = some mark) (front back : List Char) :
    (lowerWithin front part back).head? = some mark := by
  obtain ⟨rest, rfl⟩ := List.head?_eq_some_iff.1 hpart
  rw [lowerWithin, lowerImage_mark h]
  rfl

end CodeSurvey.Text
