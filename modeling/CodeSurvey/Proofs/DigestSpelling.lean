import CodeSurvey.Proofs.SharingCorrect
import CodeSurvey.Proofs.TextOrder
import CodeSurvey.Project.Json
import CodeSurvey.Text.Lowercase

/-!
# The spelling of digests

A digest is written with sixty-four hexadecimal digits in lower case, and exactly the texts of
sixty-four hexadecimal digits are read, each as the digest that is written like it but for case. The
digits are ordered as the numbers are, so digests are ordered as their spellings.

## Key results

- `Text.hexValue?_eq_some_iff`: the number that a digit stands for
- `Digest.bytesOfHex?_eq_some_iff`: the bytes that are read from some digits
- `Digest.precedes_iff_toHex_lt`: digests are ordered as their spellings are
- `Digest.spelling_exact`: which texts spell a digest, and how spellings are ordered
-/

namespace CodeSurvey

namespace Text

/-- A hexadecimal digit in lower case. -/
def IsLowerHexDigit (c : Char) : Prop :=
  ('0' ≤ c ∧ c ≤ '9') ∨ ('a' ≤ c ∧ c ≤ 'f')

/-- A hexadecimal digit in either case. -/
def IsHexDigit (c : Char) : Prop :=
  IsLowerHexDigit c ∨ ('A' ≤ c ∧ c ≤ 'F')

instance (c : Char) : Decidable (IsLowerHexDigit c) :=
  inferInstanceAs (Decidable (_ ∨ _))

instance (c : Char) : Decidable (IsHexDigit c) :=
  inferInstanceAs (Decidable (_ ∨ _))

/-- Hexadecimal digits are ASCII characters. -/
theorem toNat_lt_of_isHexDigit {c : Char} (h : IsHexDigit c) : c.toNat < 0x80 := by
  have hle : ∀ {d : Char}, c ≤ d → d.toNat < 0x80 → c.toNat < 0x80 := fun hcd hd =>
    Nat.lt_of_le_of_lt (UInt32.le_iff_toNat_le.1 hcd) hd
  rcases h with (⟨-, h⟩ | ⟨-, h⟩) | ⟨-, h⟩ <;> exact hle h (by decide)

theorem toNat_lt_of_hexValue? {c : Char} {n : Nat} (h : hexValue? c = some n) :
    c.toNat < 0x80 := by
  by_contra hge
  have hnone : hexValue? c = none := by
    simp only [hexValue?, Bool.and_eq_true, decide_eq_true_eq]
    rw [if_neg (by omega), if_neg (by omega), if_neg (by omega)]
  rw [hnone] at h
  cases h

/-- A hexadecimal digit stands for the number that is written like it but for case. -/
theorem hexValue?_eq_some_iff (c : Char) (n : Nat) :
    hexValue? c = some n ↔ IsHexDigit c ∧ n < 16 ∧ hexDigit n = c.toLower := by
  have hall : ∀ code < 0x80, ∀ n < 16, hexValue? (Char.ofNat code) = some n ↔
      IsHexDigit (Char.ofNat code) ∧ hexDigit n = (Char.ofNat code).toLower := by
    decide +kernel
  have hbound : ∀ code < 0x80, ∀ n ∈ hexValue? (Char.ofNat code), n < 16 := by
    decide +kernel
  constructor
  · intro h
    have hcode := toNat_lt_of_hexValue? h
    have hn := hbound c.toNat hcode n (by simpa using h)
    obtain ⟨hdigit, hlower⟩ := (hall c.toNat hcode n hn).1 (by simpa using h)
    exact ⟨by simpa using hdigit, hn, by simpa using hlower⟩
  · rintro ⟨hdigit, hn, hlower⟩
    have hcode := toNat_lt_of_isHexDigit hdigit
    simpa using (hall c.toNat hcode n hn).2 (by simpa using ⟨hdigit, hlower⟩)

theorem exists_hexValue?_iff (c : Char) : (∃ n, hexValue? c = some n) ↔ IsHexDigit c := by
  have hall : ∀ code < 0x80, IsHexDigit (Char.ofNat code) →
      (hexValue? (Char.ofNat code)).isSome = true := by
    decide +kernel
  constructor
  · rintro ⟨n, h⟩
    exact ((hexValue?_eq_some_iff c n).1 h).1
  · intro h
    have hsome := hall c.toNat (toNat_lt_of_isHexDigit h) (by simpa using h)
    exact Option.isSome_iff_exists.1 (by simpa using hsome)

theorem isLowerHexDigit_hexDigit : ∀ n < 16, IsLowerHexDigit (hexDigit n) := by
  decide

/-- Digits are ordered as their numbers are. -/
theorem hexDigit_lt : ∀ m < 16, ∀ n < 16, m < n → hexDigit m < hexDigit n := by
  decide

end Text

namespace Digest

open Text (hexDigit hexValue? IsHexDigit IsLowerHexDigit utf8Bytes)

/-! ## Digits of bytes -/

theorem hexOfBytes_cons (b : UInt8) (rest : List UInt8) :
    hexOfBytes (b :: rest) =
      hexDigit (b.toNat / 16) :: hexDigit (b.toNat % 16) :: hexOfBytes rest := rfl

theorem length_hexOfBytes (bytes : List UInt8) : (hexOfBytes bytes).length = 2 * bytes.length := by
  induction bytes with
  | nil => rfl
  | cons b rest ih =>
    rw [hexOfBytes_cons, List.length_cons, List.length_cons, List.length_cons, ih]
    omega

theorem isLowerHexDigit_of_mem_hexOfBytes {bytes : List UInt8} :
    ∀ c ∈ hexOfBytes bytes, IsLowerHexDigit c := by
  intro c hc
  obtain ⟨b, -, hdigit⟩ := List.mem_flatMap.1 hc
  have hb := b.toNat_lt
  rcases List.mem_pair.1 hdigit with rfl | rfl
  · exact Text.isLowerHexDigit_hexDigit _ (by omega)
  · exact Text.isLowerHexDigit_hexDigit _ (by omega)

/-- Two digits and more are read as a byte and those of the rest. -/
theorem bytesOfHex?_cons_cons_eq_some_iff (high low : Char) (rest : List Char)
    (bytes : List UInt8) :
    bytesOfHex? (high :: low :: rest) = some bytes ↔
      ∃ h l tail, hexValue? high = some h ∧ hexValue? low = some l ∧
        bytesOfHex? rest = some tail ∧ UInt8.ofNat (16 * h + l) :: tail = bytes := by
  rw [bytesOfHex?]
  cases hexValue? high <;> cases hexValue? low <;> cases bytesOfHex? rest <;> simp

/-- Two digits make the byte that is written like them but for case. -/
theorem eq_ofNat_iff (b : UInt8) {h l : Nat} (hh : h < 16) (hl : l < 16) :
    UInt8.ofNat (16 * h + l) = b ↔ b.toNat / 16 = h ∧ b.toNat % 16 = l := by
  have hb := b.toNat_lt
  rw [← UInt8.toNat_inj, UInt8.toNat_ofNat', Nat.mod_eq_of_lt (by omega)]
  omega

/-- Some digits are read as the bytes that are written like them but for case. -/
theorem bytesOfHex?_eq_some_iff : ∀ (text : List Char) (bytes : List UInt8),
    bytesOfHex? text = some bytes ↔
      (∀ c ∈ text, IsHexDigit c) ∧ hexOfBytes bytes = text.map Char.toLower
  | [], bytes => by
    cases bytes with
    | nil => simp [bytesOfHex?, hexOfBytes]
    | cons b rest => simp [bytesOfHex?, hexOfBytes_cons]
  | [c], bytes => by
    -- bytes are written with an even number of digits
    refine iff_of_false (by simp [bytesOfHex?]) fun hdigits => ?_
    have hlength := length_hexOfBytes bytes
    rw [hdigits.2, List.length_map, List.length_singleton] at hlength
    omega
  | high :: low :: rest, bytes => by
    rw [bytesOfHex?_cons_cons_eq_some_iff]
    simp only [bytesOfHex?_eq_some_iff rest, Text.hexValue?_eq_some_iff, List.forall_mem_cons,
      List.map_cons]
    constructor
    · rintro ⟨h, l, tail, ⟨hhigh, hh, hhdigit⟩, ⟨hlow, hl, hldigit⟩, ⟨hrest, htail⟩, rfl⟩
      obtain ⟨hdiv, hmod⟩ := (eq_ofNat_iff _ hh hl).1 rfl
      rw [hexOfBytes_cons, hdiv, hmod, hhdigit, hldigit, htail]
      exact ⟨⟨hhigh, hlow, hrest⟩, rfl⟩
    · rintro ⟨⟨hhigh, hlow, hrest⟩, heq⟩
      cases bytes with
      | nil => cases heq
      | cons b tail =>
        have hb := b.toNat_lt
        rw [hexOfBytes_cons] at heq
        simp only [List.cons.injEq] at heq
        obtain ⟨hhdigit, hldigit, htail⟩ := heq
        exact ⟨b.toNat / 16, b.toNat % 16, tail, ⟨hhigh, by omega, hhdigit⟩,
          ⟨hlow, by omega, hldigit⟩, ⟨hrest, htail⟩,
          congrArg (· :: tail) ((eq_ofNat_iff b (by omega) (by omega)).2 ⟨rfl, rfl⟩)⟩

/-- Digits can be read if their number is even. -/
theorem exists_bytesOfHex? : ∀ {text : List Char}, (∀ c ∈ text, IsHexDigit c) →
    text.length % 2 = 0 → ∃ bytes, bytesOfHex? text = some bytes
  | [], _, _ => ⟨[], rfl⟩
  | [_], _, heven => by simp at heven
  | high :: low :: rest, hdigits, heven => by
    simp only [List.forall_mem_cons] at hdigits
    simp only [List.length_cons] at heven
    obtain ⟨h, hhigh⟩ := (Text.exists_hexValue?_iff high).2 hdigits.1
    obtain ⟨l, hlow⟩ := (Text.exists_hexValue?_iff low).2 hdigits.2.1
    obtain ⟨tail, htail⟩ := exists_bytesOfHex? hdigits.2.2 (by omega)
    exact ⟨_, (bytesOfHex?_cons_cons_eq_some_iff _ _ _ _).2 ⟨h, l, tail, hhigh, hlow, htail, rfl⟩⟩

/-- The digits of bytes are ordered as the bytes are. -/
theorem hexOfBytes_lt {a b : List UInt8} (h : a < b) : hexOfBytes a < hexOfBytes b := by
  induction h with
  | @nil b rest =>
    rw [hexOfBytes_cons]
    exact List.nil_lt_cons _ _
  | @rel x xs y ys hlt =>
    have hx := x.toNat_lt
    have hy := y.toNat_lt
    have hxy : x.toNat < y.toNat := UInt8.lt_iff_toNat_lt.1 hlt
    rw [hexOfBytes_cons, hexOfBytes_cons]
    -- the first digits differ, or they agree and the second ones differ
    by_cases hhigh : x.toNat / 16 = y.toNat / 16
    · rw [hhigh]
      apply List.Lex.cons
      exact List.Lex.rel (Text.hexDigit_lt _ (by omega) _ (by omega) (by omega))
    · exact List.Lex.rel (Text.hexDigit_lt _ (by omega) _ (by omega) (by omega))
  | cons _ ih =>
    rw [hexOfBytes_cons, hexOfBytes_cons]
    exact List.Lex.cons (List.Lex.cons ih)

/-- The spellings of digests are ordered as the digests are, also byte by byte. -/
theorem precedes_iff_toHex_lt (a b : Digest) :
    a.precedes b = true ↔ utf8Bytes a.toHex < utf8Bytes b.toHex := by
  have hmono : ∀ {a b : Digest}, a.bytes < b.bytes → a.toHex < b.toHex := fun hlt => by
    show (String.ofList (hexOfBytes _)).toList < (String.ofList (hexOfBytes _)).toList
    rw [String.toList_ofList, String.toList_ofList]
    exact hexOfBytes_lt hlt
  rw [← Text.lt_iff_utf8Bytes_lt, precedes, decide_eq_true_eq]
  refine ⟨hmono, fun h => ?_⟩
  -- the order of bytes is total, so it is enough that digits keep it
  rcases Std.lt_trichotomy a.bytes b.bytes with hlt | heq | hlt
  · exact hlt
  · rw [toHex, heq] at h
    exact absurd h (String.lt_irrefl _)
  · exact absurd (String.lt_trans h (hmono hlt)) (String.lt_irrefl _)

/-! ## Spellings -/

/-- A text spells a digest: sixty-four hexadecimal digits, those of the digest in either case. -/
structure IsSpelledBy (digest : Digest) (text : String) : Prop where
  length_eq : text.length = 64
  digits : ∀ c ∈ text.toList, IsHexDigit c
  toHex_eq : digest.toHex.toList = Text.asciiFold text

theorem length_toHex (digest : Digest) : digest.toHex.length = 64 := by
  rw [toHex, String.length_ofList, length_hexOfBytes, digest.length_eq]

theorem ofHex?_eq_some_iff (text : String) (digest : Digest) :
    ofHex? text = some digest ↔ digest.IsSpelledBy text := by
  have hread : ofHex? text = some digest ↔ bytesOfHex? text.toList = some digest.bytes := by
    rw [ofHex?]
    cases hbytes : bytesOfHex? text.toList with
    | none => simp
    | some bytes =>
      by_cases hlength : bytes.length = 32
      · cases digest
        simp [hlength]
      · have hne : bytes ≠ digest.bytes := fun heq => hlength (heq ▸ digest.length_eq)
        simp [hlength, hne]
  rw [hread, bytesOfHex?_eq_some_iff]
  constructor
  · rintro ⟨hdigits, heq⟩
    refine ⟨?_, hdigits, by rw [toHex, String.toList_ofList]; exact heq⟩
    rw [← String.length_toList, ← List.length_map Char.toLower, ← heq, length_hexOfBytes,
      digest.length_eq]
  · rintro ⟨-, hdigits, heq⟩
    rw [toHex, String.toList_ofList] at heq
    exact ⟨hdigits, heq⟩

theorem exists_ofHex?_iff (text : String) :
    (∃ digest, ofHex? text = some digest) ↔
      text.length = 64 ∧ ∀ c ∈ text.toList, IsHexDigit c := by
  constructor
  · rintro ⟨digest, h⟩
    obtain ⟨hlength, hdigits, -⟩ := (ofHex?_eq_some_iff text digest).1 h
    exact ⟨hlength, hdigits⟩
  · rintro ⟨hlength, hdigits⟩
    rw [← String.length_toList] at hlength
    obtain ⟨bytes, hbytes⟩ := exists_bytesOfHex? hdigits (by omega)
    -- sixty-four digits make thirty-two bytes
    have hbound : bytes.length = 32 := by
      have hdouble := length_hexOfBytes bytes
      rw [((bytesOfHex?_eq_some_iff _ _).1 hbytes).2, List.length_map] at hdouble
      omega
    exact ⟨⟨bytes, hbound⟩, by rw [ofHex?, hbytes]; exact dif_pos hbound⟩

theorem ofJson?_eq_some_iff (value : Json) (digest : Digest) :
    ofJson? value = some digest ↔ ∃ text, value = .ofString text ∧ digest.IsSpelledBy text := by
  have htext : ∀ text, value.text? = some text ↔ value = .ofString text := by
    intro text
    cases value <;> simp [Json.text?, Json.ofString]
  simp only [ofJson?, Option.bind_eq_some_iff, htext, ofHex?_eq_some_iff]

/-- A digest is written with sixty-four hexadecimal digits in lower case, which are read back.
Exactly the texts of sixty-four hexadecimal digits are read, as the digest that is written like the
text but for case, and so are the values that spell one. Spellings are ordered byte by byte as the
digests are, and in this order the groups of projects are listed that share a text. -/
theorem spelling_exact :
    (∀ digest : Digest, ofHex? digest.toHex = some digest ∧ digest.toHex.length = 64 ∧
        ∀ c ∈ digest.toHex.toList, IsLowerHexDigit c) ∧
      (∀ text, (∃ digest, ofHex? text = some digest) ↔
        text.length = 64 ∧ ∀ c ∈ text.toList, IsHexDigit c) ∧
      (∀ text digest, ofHex? text = some digest ↔ digest.IsSpelledBy text) ∧
      (∀ value digest, ofJson? value = some digest ↔
        ∃ text, value = .ofString text ∧ digest.IsSpelledBy text) ∧
      (∀ digest : Digest, digest.toJson = .ofString digest.toHex) ∧
      (∀ a b : Digest, a.precedes b = true ↔ utf8Bytes a.toHex < utf8Bytes b.toHex) ∧
      ∀ projects, ∀ entry ∈ Sharing.identifiers projects, ∃ bodies : List Digest,
        (bodies.Pairwise fun a b => utf8Bytes a.toHex < utf8Bytes b.toHex) ∧
          (∀ body, body ∈ bodies ↔ Sharing.IsSpread (Sharing.occurrences projects)
            (Sharing.Occurrence.HasBody entry.name entry.kind body)) ∧
          List.Forall₂ (fun body => Sharing.NamesOwners projects
            (Sharing.Occurrence.HasBody entry.name entry.kind body))
            bodies entry.hardOverlapGroups := by
  refine ⟨fun digest => ⟨ofHex?_toHex digest, length_toHex digest, ?_⟩, exists_ofHex?_iff,
    ofHex?_eq_some_iff, ofJson?_eq_some_iff, fun _ => rfl, precedes_iff_toHex_lt,
    fun projects entry hentry => ?_⟩
  · rw [toHex, String.toList_ofList]
    exact isLowerHexDigit_of_mem_hexOfBytes
  · obtain ⟨bodies, hpairwise, hbodies⟩ := Sharing.exists_bodies_of_mem_identifiers hentry
    simp only [precedes_iff_toHex_lt] at hpairwise
    exact ⟨bodies, hpairwise, hbodies⟩

end Digest

end CodeSurvey
