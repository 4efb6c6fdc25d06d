/-!
# SHA-256

The hash function of FIPS 180-4. A message is padded to blocks of sixty-four bytes, each of which is
compressed into a state of eight words; the state after the last block is the hash.
`length_hash` says that a hash has thirty-two bytes.
-/

namespace CodeSurvey.Sha256

/-- One constant for each of the sixty-four rounds: the first bits of the fractions of the cube
roots of the first primes. -/
def roundConstants : Array UInt32 := #[
  0x428a2f98, 0x71374491, 0xb5c0fbcf, 0xe9b5dba5, 0x3956c25b, 0x59f111f1, 0x923f82a4, 0xab1c5ed5,
  0xd807aa98, 0x12835b01, 0x243185be, 0x550c7dc3, 0x72be5d74, 0x80deb1fe, 0x9bdc06a7, 0xc19bf174,
  0xe49b69c1, 0xefbe4786, 0x0fc19dc6, 0x240ca1cc, 0x2de92c6f, 0x4a7484aa, 0x5cb0a9dc, 0x76f988da,
  0x983e5152, 0xa831c66d, 0xb00327c8, 0xbf597fc7, 0xc6e00bf3, 0xd5a79147, 0x06ca6351, 0x14292967,
  0x27b70a85, 0x2e1b2138, 0x4d2c6dfc, 0x53380d13, 0x650a7354, 0x766a0abb, 0x81c2c92e, 0x92722c85,
  0xa2bfe8a1, 0xa81a664b, 0xc24b8b70, 0xc76c51a3, 0xd192e819, 0xd6990624, 0xf40e3585, 0x106aa070,
  0x19a4c116, 0x1e376c08, 0x2748774c, 0x34b0bcb5, 0x391c0cb3, 0x4ed8aa4a, 0x5b9cca4f, 0x682e6ff3,
  0x748f82ee, 0x78a5636f, 0x84c87814, 0x8cc70208, 0x90befffa, 0xa4506ceb, 0xbef9a3f7, 0xc67178f2]

/-- The eight words of the running hash. -/
structure State where
  a : UInt32
  b : UInt32
  c : UInt32
  d : UInt32
  e : UInt32
  f : UInt32
  g : UInt32
  h : UInt32

namespace State

/-- The state before the first block: the first bits of the fractions of the square roots of the
first eight primes. -/
def initial : State :=
  ⟨0x6a09e667, 0xbb67ae85, 0x3c6ef372, 0xa54ff53a,
    0x510e527f, 0x9b05688c, 0x1f83d9ab, 0x5be0cd19⟩

/-- Word-wise sum. -/
def add (s t : State) : State :=
  ⟨s.a + t.a, s.b + t.b, s.c + t.c, s.d + t.d, s.e + t.e, s.f + t.f, s.g + t.g, s.h + t.h⟩

/-- The words in order. -/
def words (s : State) : List UInt32 :=
  [s.a, s.b, s.c, s.d, s.e, s.f, s.g, s.h]

end State

/-- A word turned right by `n` bits. -/
def rotateRight (x n : UInt32) : UInt32 :=
  (x >>> n) ||| (x <<< (32 - n))

/-- One round: mixes a constant and a word of the schedule into the state. -/
def round (s : State) (constant word : UInt32) : State :=
  let sum1 := rotateRight s.e 6 ^^^ rotateRight s.e 11 ^^^ rotateRight s.e 25
  let choice := (s.e &&& s.f) ^^^ (~~~s.e &&& s.g)
  let temp1 := s.h + sum1 + choice + constant + word
  let sum0 := rotateRight s.a 2 ^^^ rotateRight s.a 13 ^^^ rotateRight s.a 22
  let majority := (s.a &&& s.b) ^^^ (s.a &&& s.c) ^^^ (s.b &&& s.c)
  ⟨temp1 + (sum0 + majority), s.a, s.b, s.c, s.d + temp1, s.e, s.f, s.g⟩

/-- A byte of a message as a word, zero past its end. -/
def byteAt (message : ByteArray) (i : Nat) : UInt32 :=
  if h : i < message.size then message[i].toUInt32 else 0

/-- Four bytes of a message as one word, the highest byte first. -/
def wordAt (message : ByteArray) (i : Nat) : UInt32 :=
  (byteAt message i <<< 24) ||| (byteAt message (i + 1) <<< 16)
    ||| (byteAt message (i + 2) <<< 8) ||| byteAt message (i + 3)

/-- The next word of a schedule. -/
def nextWord (schedule : Array UInt32) : UInt32 :=
  let word (back : Nat) := schedule.getD (schedule.size - back) 0
  let x := word 15
  let y := word 2
  word 16 + (rotateRight x 7 ^^^ rotateRight x 18 ^^^ (x >>> 3))
    + word 7 + (rotateRight y 17 ^^^ rotateRight y 19 ^^^ (y >>> 10))

/-- The sixty-four words that a block of a message contributes: its own sixteen, and as many more as
there are rounds. -/
def schedule (message : ByteArray) (start : Nat) : Array UInt32 :=
  let own := (Array.range 16).map fun i => wordAt message (start + 4 * i)
  Nat.fold 48 (fun _ _ words => words.push (nextWord words)) own

/-- The state after the block that starts at byte `start`. -/
def compress (message : ByteArray) (state : State) (start : Nat) : State :=
  let words := schedule message start
  let mixed :=
    Nat.fold 64 (fun i _ s => round s (roundConstants.getD i 0) (words.getD i 0)) state
  state.add mixed

/-- The bytes of a word, the highest first. -/
def bytesOfWord (x : UInt32) : List UInt8 :=
  [(x >>> 24).toUInt8, (x >>> 16).toUInt8, (x >>> 8).toUInt8, x.toUInt8]

/-- How many zero bytes stand between the mark that ends a message and its length. -/
def paddingZeros (size : Nat) : Nat :=
  (119 - size % 64) % 64

/-- A message with the mark that ends it, zeros, and its length in bits. -/
def pad (message : ByteArray) : ByteArray :=
  let bits := (8 * message.size).toUInt64
  let marked := (paddingZeros message.size).fold (fun _ _ bytes => bytes.push 0) (message.push 0x80)
  (bytesOfWord (bits >>> 32).toUInt32 ++ bytesOfWord bits.toUInt32).foldl ByteArray.push marked

/-- The hash of a message. -/
def hash (message : ByteArray) : List UInt8 :=
  let padded := pad message
  let last :=
    (padded.size / 64).fold (fun i _ state => compress padded state (64 * i)) State.initial
  last.words.flatMap bytesOfWord

/-- A hash has thirty-two bytes. -/
theorem length_hash (message : ByteArray) : (hash message).length = 32 := by
  simp [hash, State.words, bytesOfWord]

end CodeSurvey.Sha256
