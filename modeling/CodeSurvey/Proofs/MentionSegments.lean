import CodeSurvey.Proofs.MentionedNames
import CodeSurvey.Proofs.PathComponents

/-!
# Names on the segments of a mention

Where the segments of a name are some neighbouring segments of a mention, the name stands in the
mention with slashes on both sides or at an end of it, and this sets it apart.

## Key results

- `setsApart_of_slashes`: slashes on the sides on which something stands set a name apart
- `exists_of_segments_infix`: what stands around neighbouring segments of a text
- `mentionNames_respects_segments`: a mention names what its segments spell, and nothing that is
  not set apart in it
-/

namespace CodeSurvey

namespace Path

/-- Around neighbouring segments of a text there are slashes, or nothing. -/
theorem exists_of_segments_infix {part text : String} (h : segments part <:+: segments text) :
    ∃ front back : List Char, text.toList = front ++ part.toList ++ back ∧
      (front = [] ∨ front.getLast? = some '/') ∧ (back = [] ∨ back.head? = some '/') := by
  obtain ⟨before, behind, hsegments⟩ := h
  have hpart : segments part ≠ [] := segmentsFrom_ne_nil [] part.toList
  have htext := intercalate_segments text
  rw [← hsegments] at htext
  -- first what stands before, then what stands behind
  obtain ⟨front, hfront, hslash⟩ : ∃ front : List Char,
      ("/".intercalate (before ++ segments part)).toList = front ++ part.toList ∧
        (front = [] ∨ front.getLast? = some '/') := by
    by_cases hbefore : before = []
    · subst hbefore
      exact ⟨[], by rw [List.nil_append, intercalate_segments]; rfl, .inl rfl⟩
    · refine ⟨("/".intercalate before).toList ++ ['/'], ?_, .inr List.getLast?_concat⟩
      rw [String.intercalate_append_of_ne_nil hbefore hpart, intercalate_segments]
      simp
  by_cases hbehind : behind = []
  · subst hbehind
    rw [List.append_nil] at htext
    exact ⟨front, [], by rw [← htext, hfront, List.append_nil], hslash, .inl rfl⟩
  · refine ⟨front, '/' :: ("/".intercalate behind).toList, ?_, hslash, .inr rfl⟩
    have hne : before ++ segments part ≠ [] := fun hnil => hpart (List.append_eq_nil_iff.1 hnil).2
    rw [← htext, String.intercalate_append_of_ne_nil hne hbehind, String.toList_append,
      String.toList_append, hfront]
    simp

end Path

namespace Resolution

/-- Slashes on the sides on which something stands set a name apart. -/
theorem setsApart_of_slashes {front back : List Char}
    (hfront : front = [] ∨ front.getLast? = some '/') (hback : back = [] ∨ back.head? = some '/') :
    SetsApart front back := by
  rcases hback with rfl | hslash
  · rcases hfront with rfl | hslash
    · exact .inl ⟨rfl, rfl⟩
    · exact .inr (.inl ⟨hslash, rfl⟩)
  · exact .inr (.inr (.inr (.inl hslash)))

/-- A mention names what some of its neighbouring segments spell, wherever they stand, and it names
exactly what stands in it set apart. -/
theorem mentionNames_respects_segments (mention name : String) :
    (Path.segments name <:+: Path.segments mention → mentionNames mention name = true) ∧
      (mentionNames mention name = true ↔
        ∃ front back, mention.toList = front ++ name.toList ++ back ∧ SetsApart front back) := by
  refine ⟨fun hsegments => ?_, mentionNames_iff_exists mention name⟩
  obtain ⟨front, back, htext, hfront, hback⟩ := Path.exists_of_segments_infix hsegments
  exact (mentionNames_iff_exists mention name).2
    ⟨front, back, htext, setsApart_of_slashes hfront hback⟩

/-- A name with an empty segment in the middle of a mention. -/
theorem mentionNames_respects_segments_doubled :
    Path.segments "libs//core" <:+: Path.segments "../libs//core/a.js" ∧
      mentionNames "../libs//core/a.js" "libs//core" = true := by
  have hsegments : Path.segments "libs//core" <:+: Path.segments "../libs//core/a.js" :=
    ⟨[".."], ["a.js"], by decide +kernel⟩
  exact ⟨hsegments, (mentionNames_respects_segments _ _).1 hsegments⟩

end Resolution

end CodeSurvey
