import CodeSurvey.Digest.Sha256
import CodeSurvey.Text.Hexadecimal

/-!
# Content digests

The SHA-256 digest of a text or a file and its spelling by sixty-four hexadecimal digits. Digests
are written in lower case and read in either case. `ofHex?_toHex` says that what is written is
read back.
-/

namespace CodeSurvey

open Text (hexDigit hexValue? hexValue?_hexDigit)

/-- The thirty-two bytes that stand for a content. -/
structure Digest where
  bytes : List UInt8
  length_eq : bytes.length = 32
deriving DecidableEq

namespace Digest

/-- The digest of some bytes. -/
def ofBytes (content : ByteArray) : Digest :=
  ⟨Sha256.hash content, Sha256.length_hash content⟩

/-- The digest of a text in UTF-8. -/
def ofText (text : String) : Digest :=
  ofBytes text.toUTF8

/-- Whether the bytes of a digest come before those of another, in the order of words. -/
def precedes (a b : Digest) : Bool :=
  decide (a.bytes < b.bytes)

/-- Two digits for every byte. -/
def hexOfBytes (bytes : List UInt8) : List Char :=
  bytes.flatMap fun b => [hexDigit (b.toNat / 16), hexDigit (b.toNat % 16)]

/-- The bytes that pairs of digits stand for. -/
def bytesOfHex? : List Char → Option (List UInt8)
  | [] => some []
  | [_] => none
  | high :: low :: rest =>
    match hexValue? high, hexValue? low, bytesOfHex? rest with
    | some h, some l, some bytes => some (UInt8.ofNat (16 * h + l) :: bytes)
    | _, _, _ => none

/-- The spelling of a digest. -/
def toHex (digest : Digest) : String :=
  String.ofList (hexOfBytes digest.bytes)

/-- The digest with a given spelling, in either case. -/
def ofHex? (text : String) : Option Digest :=
  match bytesOfHex? text.toList with
  | some bytes => if h : bytes.length = 32 then some ⟨bytes, h⟩ else none
  | none => none

/-- The first twelve digits, for people. -/
def abbreviation (digest : Digest) : String :=
  String.ofList ((hexOfBytes digest.bytes).take 12)

theorem bytesOfHex?_hexOfBytes (bytes : List UInt8) :
    bytesOfHex? (hexOfBytes bytes) = some bytes := by
  induction bytes with
  | nil => rfl
  | cons b rest ih =>
    have hhigh : hexValue? (hexDigit (b.toNat / 16)) = some (b.toNat / 16) :=
      hexValue?_hexDigit _ (by have := b.toNat_lt; omega)
    have hlow : hexValue? (hexDigit (b.toNat % 16)) = some (b.toNat % 16) :=
      hexValue?_hexDigit _ (by omega)
    have hb : 16 * (b.toNat / 16) + b.toNat % 16 = b.toNat := by omega
    have hcons : hexOfBytes (b :: rest)
        = hexDigit (b.toNat / 16) :: hexDigit (b.toNat % 16) :: hexOfBytes rest := rfl
    rw [hcons, bytesOfHex?, hhigh, hlow, ih]
    simp [hb]

/-- What is written is read back. -/
theorem ofHex?_toHex (digest : Digest) : ofHex? digest.toHex = some digest := by
  simp [ofHex?, toHex, bytesOfHex?_hexOfBytes, digest.length_eq]

end Digest

end CodeSurvey
