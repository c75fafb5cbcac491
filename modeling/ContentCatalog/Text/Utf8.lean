import ContentCatalog.Text.Quoted

/-!
# Strict decoding of UTF-8

`decode` turns bytes into characters and stops at the first ill-formed
sequence.  The report of a fault covers the longest part that could still have
begun a well-formed sequence, so it may name several bytes.
-/

namespace ContentCatalog.Text.Utf8

/-- What is wrong with an ill-formed sequence. -/
inductive Defect where
  | badStart
  | badContinuation
  | endOfData
  deriving DecidableEq, Repr

/-- An ill-formed sequence: its defect, its position, its first byte and the
number of bytes it covers. -/
structure Fault where
  defect : Defect
  position : Nat
  first : UInt8
  count : Nat
  deriving DecidableEq, Repr

/-- The words for a defect. -/
def Defect.text : Defect → String
  | .badStart => "invalid start byte"
  | .badContinuation => "invalid continuation byte"
  | .endOfData => "unexpected end of data"

/-- The report of an ill-formed sequence. -/
def Fault.message (fault : Fault) : String :=
  let place :=
    if fault.count ≤ 1 then
      "byte 0x" ++ String.ofList (hexDigits 2 fault.first.toNat) ++ " in position "
        ++ toString fault.position
    else
      "bytes in position " ++ toString fault.position ++ "-"
        ++ toString (fault.position + fault.count - 1)
  "\x27utf-8\x27 codec can\x27t decode " ++ place ++ ": " ++ fault.defect.text

/-- The number of continuation bytes that a first byte asks for. -/
def continuations? (first : Nat) : Option Nat :=
  if first < 0x80 then some 0
  else if 0xC2 ≤ first && first ≤ 0xDF then some 1
  else if 0xE0 ≤ first && first ≤ 0xEF then some 2
  else if 0xF0 ≤ first && first ≤ 0xF4 then some 3
  else none

/-- The second byte continues the first: overlong forms, surrogates and code
points past the last one are shut out here. -/
def continues (first second : Nat) : Bool :=
  0x80 ≤ second && second ≤ 0xBF
    && !(first == 0xE0 && second < 0xA0) && !(first == 0xED && 0x9F < second)
    && !(first == 0xF0 && second < 0x90) && !(first == 0xF4 && 0x8F < second)

/-- Read `needed` plain continuation bytes onto the value so far.  The result is
the code point, or the defect with the number of bytes read before it. -/
def tailBytes : (needed : Nat) → (value read : Nat) → List UInt8 → Except (Defect × Nat) Nat
  | 0, value, _, _ => .ok value
  | _ + 1, _, read, [] => .error (.endOfData, read)
  | needed + 1, value, read, b :: rest =>
    if 0x80 ≤ b.toNat && b.toNat ≤ 0xBF then
      tailBytes needed (value * 64 + (b.toNat - 0x80)) (read + 1) rest
    else .error (.badContinuation, read)

/-- The code point that `first` begins and the number of bytes after `first`
that belong to it, or the defect with the number of bytes it covers. -/
def codePoint (first : UInt8) (rest : List UInt8) : Except (Defect × Nat) (Nat × Nat) :=
  match continuations? first.toNat with
  | none => .error (.badStart, 1)
  | some 0 => .ok (first.toNat, 0)
  | some (needed + 1) =>
    match rest with
    | [] => .error (.endOfData, 1)
    | second :: others =>
      if continues first.toNat second.toNat then
        let lead := first.toNat % Nat.pow 2 (5 - needed)
        (tailBytes needed (lead * 64 + (second.toNat - 0x80)) 2 others).map (·, needed + 1)
      else .error (.badContinuation, 1)

/-- Decode from a position on; `skip` bytes at the front belong to a character
already read. -/
def decodeFrom : (position skip : Nat) → List UInt8 → Except Fault (List Char)
  | _, _, [] => .ok []
  | position, skip + 1, _ :: rest => decodeFrom (position + 1) skip rest
  | position, 0, b :: rest =>
    match codePoint b rest with
    | .error (defect, count) => .error ⟨defect, position, b, count⟩
    | .ok (n, used) => (decodeFrom (position + 1) used rest).map (Char.ofNat n :: ·)

/-- The characters of a sequence of bytes, or its first fault. -/
def decode (bytes : List UInt8) : Except Fault (List Char) :=
  decodeFrom 0 0 bytes

/-- The bytes of a text. -/
def encode (text : String) : List UInt8 :=
  text.toUTF8.toList

end ContentCatalog.Text.Utf8
