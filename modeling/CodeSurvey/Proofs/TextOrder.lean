import CodeSurvey.NativeText
import Mathlib.Data.List.Basic
import Mathlib.Tactic.SplitIfs

/-!
# The order of texts

Texts are ordered character by character. This is the order of their bytes in UTF-8, by which names
are listed in a report.

## Key results

- `utf8EncodeChar_append_lt`: the bytes of characters are ordered as the characters are
- `lt_iff_utf8Bytes_lt`: the bytes of texts are ordered as the texts are
-/

namespace CodeSurvey.Text

open String (utf8EncodeChar)

theorem utf8Bytes_eq_flatMap (text : String) :
    utf8Bytes text = text.toList.flatMap utf8EncodeChar := by
  rw [utf8Bytes, String.toUTF8, ← String.utf8Encode_toList, List.utf8Encode,
    List.toList_data_toByteArray]

theorem toNat_marked (n : Nat) {width mark : Nat} (hpos : 0 < width)
    (hmark : width + mark ≤ 256) : (UInt8.ofNat (n % width + mark)).toNat = n % width + mark := by
  have hlt := Nat.mod_lt n hpos
  rw [UInt8.toNat_ofNat', Nat.mod_eq_of_lt (by omega)]

/-- A smaller character has smaller bytes, whatever follows. -/
theorem utf8EncodeChar_append_lt {c d : Char} (h : c < d) (front back : List UInt8) :
    utf8EncodeChar c ++ front < utf8EncodeChar d ++ back := by
  have hlt : c.val.toNat < d.val.toNat := h
  have hvalid : d.val.toNat < 0x110000 := by
    have hd := d.valid
    simp only [UInt32.isValidChar, Nat.isValidChar] at hd
    omega
  simp only [utf8EncodeChar]
  generalize c.val.toNat = m at *
  generalize d.val.toNat = n at *
  -- the bytes hold the digits of a character to base 64; the first one of four holds the last digit
  have hm : m / 4096 = m / 64 / 64 ∧ m / 262144 = m / 64 / 64 / 64 := by omega
  have hn : n / 4096 = n / 64 / 64 ∧ n / 262144 = n / 64 / 64 / 64 := by omega
  rw [hm.1, hm.2, hn.1, hn.2]
  have hmlead : m / 64 / 64 / 64 % 8 = m / 64 / 64 / 64 := by omega
  have hnlead : n / 64 / 64 / 64 % 8 = n / 64 / 64 / 64 := by omega
  have htwo := fun k => toNat_marked k (show 0 < 32 by decide) (show 32 + 192 ≤ 256 by decide)
  have hthree := fun k => toNat_marked k (show 0 < 16 by decide) (show 16 + 224 ≤ 256 by decide)
  have hfour := fun k => toNat_marked k (show 0 < 8 by decide) (show 8 + 240 ≤ 256 by decide)
  have hmore := fun k => toNat_marked k (show 0 < 64 by decide) (show 64 + 128 ≤ 256 by decide)
  -- one case for each pair of lengths; the first byte tells lengths apart
  split_ifs <;>
    simp only [List.cons_append, List.nil_append, List.cons_lt_cons_iff, UInt8.lt_iff_toNat_lt,
      ← UInt8.toNat_inj, htwo, hthree, hfour, hmore, UInt8.toNat_ofNat'] <;>
    omega

private theorem flatMap_utf8EncodeChar_lt {a b : List Char} (h : a < b) :
    a.flatMap utf8EncodeChar < b.flatMap utf8EncodeChar := by
  induction h with
  | @nil d rest =>
    obtain ⟨byte, bytes, hbytes⟩ := List.exists_cons_of_ne_nil (@String.utf8EncodeChar_ne_nil d)
    rw [List.flatMap_nil, List.flatMap_cons, hbytes]
    exact List.nil_lt_cons _ _
  | rel hlt => exact utf8EncodeChar_append_lt hlt _ _
  | cons _ ih => exact List.append_left_lt ih

/-- Texts are ordered as their bytes are. -/
theorem lt_iff_utf8Bytes_lt (a b : String) : a < b ↔ utf8Bytes a < utf8Bytes b := by
  have hmono : ∀ {a b : String}, a < b → utf8Bytes a < utf8Bytes b := fun {a b} hlt => by
    rw [utf8Bytes_eq_flatMap, utf8Bytes_eq_flatMap]
    exact flatMap_utf8EncodeChar_lt hlt
  refine ⟨hmono, fun h => ?_⟩
  -- the order of texts is total, so it is enough that bytes keep it
  rcases Std.lt_trichotomy a b with hlt | heq | hlt
  · exact hlt
  · exact absurd (heq ▸ h) (List.lt_irrefl _)
  · exact absurd (List.lt_trans h (hmono hlt)) (List.lt_irrefl _)

end CodeSurvey.Text
