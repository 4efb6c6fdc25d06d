import CodeSurvey.Proofs.PathComponents
import CodeSurvey.Proofs.TextOrder

/-!
# Native texts

Native texts with the same bytes are the same, and their order is that of the bytes, so it is
linear. Names that are texts are ordered as the texts are.

## Key results

- `ofBytes_toBytes`: a native text is found again by its bytes
- `lt_iff_toBytes_lt`: native texts are ordered as their bytes are
- `lt_of_map_text_lt`: lists of texts are ordered alike as native texts
-/

namespace CodeSurvey.NativeText

/-! ## Bytes -/

theorem fromUTF8?_utf8Bytes (value : String) :
    String.fromUTF8? ⟨(Text.utf8Bytes value).toArray⟩ = some value := by
  have hbytes : (⟨(Text.utf8Bytes value).toArray⟩ : ByteArray) = value.toUTF8 := rfl
  rw [hbytes, String.fromUTF8?, String.toUTF8_eq_toByteArray, dif_pos value.isValidUTF8]
  rfl

/-- A native text is found again by its bytes. -/
theorem ofBytes_toBytes (a : NativeText) : ofBytes a.toBytes = a := by
  rw [ofBytes]
  cases a with
  | text value =>
    have hvalue := fromUTF8?_utf8Bytes value
    split
    · rename_i found hfound
      rw [toBytes, hvalue, Option.some.injEq] at hfound
      rw [hfound]
    · rename_i hnone
      rw [toBytes, hvalue] at hnone
      cases hnone
  | raw bytes hbytes =>
    split
    · rename_i found hfound
      rw [toBytes, hbytes] at hfound
      cases hfound
    · rfl

/-- Native texts with the same bytes are the same. -/
theorem toBytes_inj {a b : NativeText} (h : a.toBytes = b.toBytes) : a = b := by
  rw [← ofBytes_toBytes a, h, ofBytes_toBytes]

/-! ## Order -/

/-- Native texts are ordered as their bytes are. -/
theorem lt_iff_toBytes_lt (a b : NativeText) : a < b ↔ a.toBytes < b.toBytes := by
  cases a with
  | raw bytes hbytes => rfl
  | text a =>
    cases b with
    | raw bytes hbytes => rfl
    | text b => exact Text.lt_iff_utf8Bytes_lt a b

theorem le_iff_toBytes_le (a b : NativeText) : a ≤ b ↔ a.toBytes ≤ b.toBytes :=
  (not_congr (lt_iff_toBytes_lt b a)).trans List.not_lt

theorem text_lt_text_iff {a b : String} : text a < text b ↔ a < b :=
  Iff.rfl

instance : Std.IsLinearOrder NativeText where
  le_refl a := (le_iff_toBytes_le a a).2 (Std.le_refl _)
  le_trans a b c hab hbc := (le_iff_toBytes_le a c).2
    (Std.le_trans ((le_iff_toBytes_le a b).1 hab) ((le_iff_toBytes_le b c).1 hbc))
  le_antisymm a b hab hba :=
    toBytes_inj (Std.le_antisymm ((le_iff_toBytes_le a b).1 hab) ((le_iff_toBytes_le b a).1 hba))
  le_total a b := by
    rw [le_iff_toBytes_le, le_iff_toBytes_le]
    exact Std.le_total

instance : Std.LawfulOrderLT NativeText where
  lt_iff a b := by
    rw [lt_iff_toBytes_lt, le_iff_toBytes_le, le_iff_toBytes_le]
    exact Std.LawfulOrderLT.lt_iff _ _

/-- Lists of texts are ordered alike as native texts. -/
theorem lt_of_map_text_lt {a b : List String} (h : a.map text < b.map text) : a < b := by
  induction a generalizing b with
  | nil =>
    cases b with
    | nil => exact absurd h (List.lt_irrefl _)
    | cons value rest => exact List.nil_lt_cons _ _
  | cons value rest ih =>
    cases b with
    | nil => exact absurd h (List.not_lt_nil _)
    | cons other others =>
      rw [List.map_cons, List.map_cons, List.cons_lt_cons_iff] at h
      rw [List.cons_lt_cons_iff]
      exact h.imp text_lt_text_iff.1 fun ⟨hsame, hlt⟩ => ⟨text.inj hsame, ih hlt⟩

/-! ## Plain names -/

/-- A name that a file or directory can have: it takes one step down and nothing else. -/
def IsPlain : NativeText → Prop
  | text value => IsPlainName value
  | raw bytes _ => slash ∉ bytes

instance (name : NativeText) : Decidable name.IsPlain :=
  match name with
  | text value => inferInstanceAs (Decidable (IsPlainName value))
  | raw bytes _ => inferInstanceAs (Decidable (slash ∉ bytes))

theorem IsPlain.ne_empty {name : NativeText} (h : name.IsPlain) : name ≠ text "" := by
  rintro rfl
  exact IsPlainName.ne_empty h rfl

theorem IsPlain.ne_dot {name : NativeText} (h : name.IsPlain) : name ≠ text "." := by
  rintro rfl
  exact IsPlainName.ne_dot h rfl

theorem IsPlain.ne_dots {name : NativeText} (h : name.IsPlain) : name ≠ text ".." := by
  rintro rfl
  exact IsPlainName.ne_dots h rfl

theorem isPlain_of_mem_map_text {values : List String}
    (h : ∀ value ∈ values, IsPlainName value) : ∀ name ∈ values.map text, name.IsPlain := by
  intro name hname
  obtain ⟨value, hvalue, rfl⟩ := List.mem_map.1 hname
  exact h value hvalue

theorem isPlainName_of_map_text {values : List String}
    (h : ∀ name ∈ values.map text, name.IsPlain) : ∀ value ∈ values, IsPlainName value :=
  fun value hvalue => h (text value) (List.mem_map_of_mem hvalue)

end CodeSurvey.NativeText
