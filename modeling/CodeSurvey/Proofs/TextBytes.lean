import CodeSurvey.Text.Cursor
import CodeSurvey.Proofs.TextOrder

/-!
# The bytes of a text

Places of a text are counted in bytes, while the text is read character by character. An ASCII
character is one byte, which is no part of another character; so bytes and characters agree on where
the ASCII characters of a text stand and on how many there are.

## Key results

- `exists_of_append_eq_append` / `eq_of_append_eq_append`: two ways to cut a text, compared by their
  bytes
- `Cursor.exists_of_seek`: a place that is found cuts the text
- `exists_prefix_of_take`: what the first bytes of a text hold
- `getElem?_flatMap_utf8EncodeChar_iff`: where the byte of an ASCII character stands
-/

namespace CodeSurvey.Text

open String (utf8EncodeChar)

/-! ## Cutting a text -/

theorem eq_nil_of_byteLength_eq_zero {text : List Char} (h : byteLength text = 0) : text = [] := by
  cases text with
  | nil => rfl
  | cons c rest =>
    have hpos := c.utf8Size_pos
    rw [byteLength_cons] at h
    omega

/-- Of two ways to cut a text, the one with fewer bytes in front cuts within the front of the
other. -/
theorem exists_of_append_eq_append {front rest front' rest' : List Char}
    (h : front ++ rest = front' ++ rest') (hle : byteLength front ≤ byteLength front') :
    ∃ between, front' = front ++ between ∧ rest = between ++ rest' := by
  rcases List.append_eq_append_iff.1 h with ⟨between, hfront, hrest⟩ | ⟨between, hfront, hrest⟩
  · exact ⟨between, hfront, hrest⟩
  · -- a front that is longer in characters is longer in bytes
    rw [hfront, byteLength_append] at hle
    obtain rfl := eq_nil_of_byteLength_eq_zero (show byteLength between = 0 by omega)
    exact ⟨[], by simp [hfront], by simp [hrest]⟩

/-- Two ways to cut a text at the same byte are one. -/
theorem eq_of_append_eq_append {front rest front' rest' : List Char}
    (h : front ++ rest = front' ++ rest') (hlength : byteLength front = byteLength front') :
    front = front' ∧ rest = rest' := by
  obtain ⟨between, rfl, rfl⟩ := exists_of_append_eq_append h (Nat.le_of_eq hlength)
  rw [byteLength_append] at hlength
  obtain rfl := eq_nil_of_byteLength_eq_zero (show byteLength between = 0 by omega)
  simp

/-- Of two fronts of a text, the one with fewer bytes is a front of the other. -/
theorem prefix_of_byteLength_le {within body text : List Char} (h : within <+: text)
    (hbody : body <+: text) (hle : byteLength within ≤ byteLength body) : within <+: body := by
  obtain ⟨rest, rfl⟩ := h
  obtain ⟨back, hback⟩ := hbody
  obtain ⟨between, rfl, -⟩ := exists_of_append_eq_append hback.symm hle
  exact List.prefix_append within between

theorem Cursor.exists_of_seekFrom {target offset : Nat} {text : List Char} {cursor : Cursor}
    (h : seekFrom target offset text = some cursor) :
    ∃ front, text = front ++ cursor.rest ∧ target = offset + byteLength front := by
  induction text generalizing offset with
  | nil =>
    simp only [seekFrom, Option.ite_none_right_eq_some] at h
    obtain ⟨rfl, h⟩ := h
    exact ⟨[], by simp [← Option.some.inj h], rfl⟩
  | cons c rest ih =>
    rw [seekFrom] at h
    split at h
    · rename_i heq
      exact ⟨[], by simp [← Option.some.inj h], heq.symm⟩
    · split at h
      · cases h
      · obtain ⟨front, rfl, rfl⟩ := ih h
        exact ⟨c :: front, rfl, by rw [byteLength_cons, Nat.add_assoc]⟩

/-- A place that is found cuts the text. -/
theorem Cursor.exists_of_seek {target : Nat} {text : List Char} {cursor : Cursor}
    (h : seek text target = some cursor) :
    ∃ front, text = front ++ cursor.rest ∧ target = byteLength front := by
  obtain ⟨front, htext, htarget⟩ := exists_of_seekFrom h
  exact ⟨front, htext, by omega⟩

/-- The bytes of the characters at the start of a text are these characters. -/
theorem Cursor.takeFrom_append (offset : Nat) (front back : List Char) :
    takeFrom (offset + byteLength front) offset (front ++ back) = front := by
  induction front generalizing offset with
  | nil =>
    cases back with
    | nil => rfl
    | cons c back => exact if_neg (Nat.lt_irrefl offset)
  | cons c front ih =>
    have hpos := c.utf8Size_pos
    rw [List.cons_append, takeFrom, byteLength_cons, if_pos (by omega), ← Nat.add_assoc, ih]

/-! ## The bytes of a character -/

/-- The byte of an ASCII character. -/
def asciiByte (a : Char) : UInt8 :=
  UInt8.ofNat a.toNat

theorem toNat_asciiByte {a : Char} (h : a.toNat < 128) : (asciiByte a).toNat = a.toNat := by
  rw [asciiByte, UInt8.toNat_ofNat', Nat.mod_eq_of_lt (by omega)]

/-- An ASCII character is one byte, and all bytes of another character lie beyond those. -/
theorem utf8EncodeChar_cases (c : Char) :
    (c.toNat < 128 ∧ utf8EncodeChar c = [asciiByte c]) ∨
      128 ≤ c.toNat ∧ ∀ byte ∈ utf8EncodeChar c, 128 ≤ byte.toNat := by
  have htwo := fun k => toNat_marked k (show 0 < 32 by decide) (show 32 + 192 ≤ 256 by decide)
  have hthree := fun k => toNat_marked k (show 0 < 16 by decide) (show 16 + 224 ≤ 256 by decide)
  have hfour := fun k => toNat_marked k (show 0 < 8 by decide) (show 8 + 240 ≤ 256 by decide)
  have hmore := fun k => toNat_marked k (show 0 < 64 by decide) (show 64 + 128 ≤ 256 by decide)
  have hvalue : c.val.toNat = c.toNat := rfl
  simp only [utf8EncodeChar, hvalue]
  -- one case for each number of bytes
  split_ifs with hone
  · exact .inl ⟨by omega, rfl⟩
  all_goals
    refine .inr ⟨by omega, ?_⟩
    simp only [List.forall_mem_cons, htwo, hthree, hfour, hmore]
    simp

theorem length_flatMap_utf8EncodeChar (text : List Char) :
    (text.flatMap utf8EncodeChar).length = byteLength text := by
  induction text with
  | nil => rfl
  | cons c rest ih =>
    rw [List.flatMap_cons, List.length_append, String.length_utf8EncodeChar, ih, byteLength_cons]

/-! ## ASCII characters among the bytes -/

section Ascii

variable {a : Char} (ha : a.toNat < 128)

include ha

theorem utf8EncodeChar_ascii : utf8EncodeChar a = [asciiByte a] := by
  rcases utf8EncodeChar_cases a with ⟨-, hsingle⟩ | ⟨hle, -⟩
  · exact hsingle
  · omega

theorem utf8Size_ascii : a.utf8Size = 1 := by
  rw [← String.length_utf8EncodeChar, utf8EncodeChar_ascii ha, List.length_singleton]

/-- The byte of an ASCII character is no byte of another character. -/
theorem eq_of_mem_utf8EncodeChar {c : Char} (h : asciiByte a ∈ utf8EncodeChar c) : c = a := by
  have hbyte := toNat_asciiByte ha
  rcases utf8EncodeChar_cases c with ⟨hc, hsingle⟩ | ⟨-, hmore⟩
  · rw [hsingle, List.mem_singleton, ← UInt8.toNat_inj, hbyte, toNat_asciiByte hc] at h
    exact Char.toNat_inj.1 h.symm
  · have hle := hmore _ h
    omega

theorem count_utf8EncodeChar (c : Char) :
    (utf8EncodeChar c).count (asciiByte a) = [c].count a := by
  by_cases hc : c = a
  · subst hc
    rw [utf8EncodeChar_ascii ha, List.count_singleton_self, List.count_singleton_self]
  · rw [List.count_eq_zero.2 fun hmem => hc (eq_of_mem_utf8EncodeChar ha hmem),
      List.count_eq_zero.2 (by simpa using Ne.symm hc)]

theorem count_flatMap_utf8EncodeChar (text : List Char) :
    (text.flatMap utf8EncodeChar).count (asciiByte a) = text.count a := by
  induction text with
  | nil => rfl
  | cons c rest ih =>
    rw [List.flatMap_cons, List.count_append, ih, count_utf8EncodeChar ha, ← List.count_append,
      List.singleton_append]

/-- A byte of a text is that of an ASCII character exactly where this character stands. -/
theorem getElem?_flatMap_utf8EncodeChar_iff (text : List Char) (offset : Nat) :
    (text.flatMap utf8EncodeChar)[offset]? = some (asciiByte a) ↔
      ∃ front back, text = front ++ a :: back ∧ byteLength front = offset := by
  constructor
  · intro h
    induction text generalizing offset with
    | nil => simp at h
    | cons c rest ih =>
      rw [List.flatMap_cons, List.getElem?_append, String.length_utf8EncodeChar] at h
      split at h
      · -- the byte lies within the first character, so it is that character
        rename_i hlt
        have hsame := eq_of_mem_utf8EncodeChar ha (List.mem_of_getElem? h)
        subst hsame
        rw [utf8Size_ascii ha] at hlt
        exact ⟨[], rest, rfl, show 0 = offset by omega⟩
      · obtain ⟨front, back, rfl, hlength⟩ := ih _ h
        refine ⟨c :: front, back, rfl, ?_⟩
        rw [byteLength_cons]
        omega
  · rintro ⟨front, back, rfl, rfl⟩
    rw [List.flatMap_append, List.getElem?_append_right
      (Nat.le_of_eq (length_flatMap_utf8EncodeChar front)), length_flatMap_utf8EncodeChar,
      Nat.sub_self, List.flatMap_cons, utf8EncodeChar_ascii ha]
    rfl

end Ascii

/-- The first bytes of a text hold the ASCII characters of its first characters. -/
theorem exists_prefix_of_take (text : List Char) (length : Nat) :
    ∃ front, front <+: text ∧ byteLength front ≤ length ∧ ∀ a : Char, a.toNat < 128 →
      ((text.flatMap utf8EncodeChar).take length).count (asciiByte a) = front.count a := by
  induction text generalizing length with
  | nil => exact ⟨[], List.nil_prefix, Nat.zero_le length, by simp⟩
  | cons c rest ih =>
    by_cases hlength : c.utf8Size ≤ length
    · obtain ⟨front, hprefix, hle, hcount⟩ := ih (length - c.utf8Size)
      refine ⟨c :: front, List.cons_prefix_cons.2 ⟨rfl, hprefix⟩, ?_, fun a ha => ?_⟩
      · rw [byteLength_cons]
        omega
      · rw [List.flatMap_cons, List.take_append, String.length_utf8EncodeChar, List.count_append,
          hcount a ha, List.take_of_length_le (by rwa [String.length_utf8EncodeChar]),
          count_utf8EncodeChar ha, ← List.count_append, List.singleton_append]
    · -- the bytes end within the first character, which is then no ASCII character
      refine ⟨[], List.nil_prefix, Nat.zero_le length, fun a ha => ?_⟩
      rw [List.count_nil, List.count_eq_zero]
      intro hmem
      rw [List.flatMap_cons, List.take_append_of_le_length
        (by rw [String.length_utf8EncodeChar]; omega)] at hmem
      have hsame := eq_of_mem_utf8EncodeChar ha (List.mem_of_mem_take hmem)
      subst hsame
      rw [utf8Size_ascii ha] at hlength
      obtain rfl : length = 0 := by omega
      exact List.not_mem_nil hmem

end CodeSurvey.Text
