import ContentCatalog.Text.Quoted

/-!
# SHA-256

The digest that fingerprints a file's bytes.  The message is padded to whole
blocks of sixty-four bytes, and the eight words of the state are folded over
the blocks.

* `digest_length` : a digest has sixty-four hexadecimal digits.
-/

namespace ContentCatalog.Sha256

/-- The eight words that are carried from block to block. -/
structure State where
  a : UInt32
  b : UInt32
  c : UInt32
  d : UInt32
  e : UInt32
  f : UInt32
  g : UInt32
  h : UInt32

/-- The state before the first block. -/
def initial : State :=
  ⟨0x6a09e667, 0xbb67ae85, 0x3c6ef372, 0xa54ff53a, 0x510e527f, 0x9b05688c, 0x1f83d9ab, 0x5be0cd19⟩

/-- The constant of each round. -/
def roundConstants : List UInt32 := [
  0x428a2f98, 0x71374491, 0xb5c0fbcf, 0xe9b5dba5, 0x3956c25b, 0x59f111f1, 0x923f82a4, 0xab1c5ed5,
  0xd807aa98, 0x12835b01, 0x243185be, 0x550c7dc3, 0x72be5d74, 0x80deb1fe, 0x9bdc06a7, 0xc19bf174,
  0xe49b69c1, 0xefbe4786, 0x0fc19dc6, 0x240ca1cc, 0x2de92c6f, 0x4a7484aa, 0x5cb0a9dc, 0x76f988da,
  0x983e5152, 0xa831c66d, 0xb00327c8, 0xbf597fc7, 0xc6e00bf3, 0xd5a79147, 0x06ca6351, 0x14292967,
  0x27b70a85, 0x2e1b2138, 0x4d2c6dfc, 0x53380d13, 0x650a7354, 0x766a0abb, 0x81c2c92e, 0x92722c85,
  0xa2bfe8a1, 0xa81a664b, 0xc24b8b70, 0xc76c51a3, 0xd192e819, 0xd6990624, 0xf40e3585, 0x106aa070,
  0x19a4c116, 0x1e376c08, 0x2748774c, 0x34b0bcb5, 0x391c0cb3, 0x4ed8aa4a, 0x5b9cca4f, 0x682e6ff3,
  0x748f82ee, 0x78a5636f, 0x84c87814, 0x8cc70208, 0x90befffa, 0xa4506ceb, 0xbef9a3f7, 0xc67178f2]

/-- Rotation to the right, for amounts from 1 to 31. -/
def rotate (x : UInt32) (n : UInt32) : UInt32 :=
  (x >>> n) ||| (x <<< (32 - n))

/-- The next word of a message schedule, whose words so far are given. -/
def nextWord (words : Array UInt32) : UInt32 :=
  let n := words.size
  let w15 := words.getD (n - 15) 0
  let w2 := words.getD (n - 2) 0
  let s0 := rotate w15 7 ^^^ rotate w15 18 ^^^ (w15 >>> 3)
  let s1 := rotate w2 17 ^^^ rotate w2 19 ^^^ (w2 >>> 10)
  words.getD (n - 16) 0 + s0 + words.getD (n - 7) 0 + s1

/-- So many words more of a message schedule. -/
def extend : (count : Nat) → Array UInt32 → Array UInt32
  | 0, words => words
  | count + 1, words => extend count (words.push (nextWord words))

/-- One round, with the round's constant and its word. -/
def round (s : State) (constant word : UInt32) : State :=
  let s1 := rotate s.e 6 ^^^ rotate s.e 11 ^^^ rotate s.e 25
  let choice := (s.e &&& s.f) ^^^ (~~~ s.e &&& s.g)
  let t1 := s.h + s1 + choice + constant + word
  let s0 := rotate s.a 2 ^^^ rotate s.a 13 ^^^ rotate s.a 22
  let majority := (s.a &&& s.b) ^^^ (s.a &&& s.c) ^^^ (s.b &&& s.c)
  ⟨t1 + (s0 + majority), s.a, s.b, s.c, s.d + t1, s.e, s.f, s.g⟩

/-- All rounds from the given constants and words on. -/
def rounds : List UInt32 → Array UInt32 → (index : Nat) → State → State
  | [], _, _, s => s
  | constant :: constants, words, index, s =>
    rounds constants words (index + 1) (round s constant (words.getD index 0))

/-- The byte at a position, zero past the end. -/
def byteAt (bytes : ByteArray) (i : Nat) : UInt32 :=
  if h : i < bytes.size then (bytes[i]).toUInt32 else 0

/-- The sixteen words of the block at a position. -/
def blockWords (bytes : ByteArray) (start : Nat) : Array UInt32 :=
  (Array.range 16).map fun i =>
    let p := start + 4 * i
    (byteAt bytes p <<< 24) ||| (byteAt bytes (p + 1) <<< 16)
      ||| (byteAt bytes (p + 2) <<< 8) ||| byteAt bytes (p + 3)

/-- The state after one more block. -/
def absorb (bytes : ByteArray) (s : State) (start : Nat) : State :=
  let t := rounds roundConstants (extend 48 (blockWords bytes start)) 0 s
  ⟨s.a + t.a, s.b + t.b, s.c + t.c, s.d + t.d, s.e + t.e, s.f + t.f, s.g + t.g, s.h + t.h⟩

/-- The state after so many blocks from a position on. -/
def absorbAll (bytes : ByteArray) : (blocks start : Nat) → State → State
  | 0, _, s => s
  | blocks + 1, start, s => absorbAll bytes blocks (start + 64) (absorb bytes s start)

/-- So many zero bytes behind the bytes. -/
def pushZeros : (count : Nat) → ByteArray → ByteArray
  | 0, bytes => bytes
  | count + 1, bytes => pushZeros count (bytes.push 0)

/-- The message with its padding: a one bit, zeros up to eight bytes short of a
block, and the length in bits. -/
def padded (bytes : ByteArray) : ByteArray :=
  let marked := pushZeros ((119 - bytes.size % 64) % 64) (bytes.push 0x80)
  let bits := bytes.size * 8
  (List.range 8).foldl (fun out i => out.push (UInt8.ofNat (bits >>> (8 * (7 - i))))) marked

/-- The digest in lower-case hexadecimal. -/
def digest (bytes : ByteArray) : String :=
  let message := padded bytes
  let s := absorbAll message (message.size / 64) 0 initial
  String.ofList ([s.a, s.b, s.c, s.d, s.e, s.f, s.g, s.h].flatMap fun word =>
    Text.hexDigits 8 word.toNat)

/-- A number has as many digits as are asked for. -/
theorem length_hexDigits (width n : Nat) : (Text.hexDigits width n).length = width := by
  induction width generalizing n with
  | zero => rfl
  | succ width ih => simp [Text.hexDigits, ih]

/-- A digest is never the empty text: it has sixty-four characters. -/
theorem digest_length (bytes : ByteArray) : (digest bytes).length = 64 := by
  simp [digest, length_hexDigits]

end ContentCatalog.Sha256
