/-!
# Base64

The standard alphabet with padding.  `encode` writes three bytes as four
characters; `decode` is lenient: it passes over characters outside the alphabet
and stops at a complete padding.
-/

namespace ContentCatalog.Text.Base64

/-- Why a text cannot be decoded. -/
inductive Fault where
  /-- One character of a last group stands alone; so many came before it and
  with it. -/
  | loneCharacter (characters : Nat)
  | padding
  deriving DecidableEq, Repr

/-- The report of a fault. -/
def Fault.message : Fault → String
  | .loneCharacter characters =>
    "Invalid base64-encoded string: number of data characters (" ++ toString characters
      ++ ") cannot be 1 more than a multiple of 4"
  | .padding => "Incorrect padding"

/-- The character for a value below 64. -/
def digit (n : Nat) : Char :=
  if n < 26 then Char.ofNat (65 + n)
  else if n < 52 then Char.ofNat (71 + n)
  else if n < 62 then Char.ofNat (n - 4)
  else if n = 62 then '+' else '/'

/-- The value of a character of the alphabet. -/
def value? (c : Char) : Option Nat :=
  let n := c.toNat
  if 65 ≤ n && n ≤ 90 then some (n - 65)
  else if 97 ≤ n && n ≤ 122 then some (n - 71)
  else if 48 ≤ n && n ≤ 57 then some (n + 4)
  else if c == '+' then some 62
  else if c == '/' then some 63
  else none

/-- The text of a sequence of bytes. -/
def encode : List UInt8 → List Char
  | [] => []
  | [a] =>
    let n := a.toNat * 16
    [digit (n / 64), digit (n % 64), '=', '=']
  | [a, b] =>
    let n := (a.toNat * 256 + b.toNat) * 4
    [digit (n / 4096), digit (n / 64 % 64), digit (n % 64), '=']
  | a :: b :: c :: rest =>
    let n := (a.toNat * 256 + b.toNat) * 256 + c.toNat
    digit (n / 262144) :: digit (n / 4096 % 64) :: digit (n / 64 % 64) :: digit (n % 64)
      :: encode rest

/-- How far a group of four has been read: the bits that are left over belong to
the next byte. -/
inductive Group where
  | zero
  | one (bits : Nat)
  | two (bits : Nat)
  | three (bits : Nat)

/-- Read on with a group begun, `pads` padding characters in it, and the bytes
so far in reverse. -/
def decodeFrom : Group → (pads : Nat) → (bytes : List UInt8) → List Char → Except Fault (List UInt8)
  | group, _, bytes, [] =>
    match group with
    | .zero => .ok bytes.reverse
    | .one _ => .error (.loneCharacter (bytes.length / 3 * 4 + 1))
    | _ => .error .padding
  | group, pads, bytes, c :: rest =>
    if c == '=' then
      match group with
      | .two _ => if 1 ≤ pads then .ok bytes.reverse else decodeFrom group (pads + 1) bytes rest
      | .three _ => .ok bytes.reverse
      | _ => decodeFrom group pads bytes rest
    else
      match value? c with
      | none => decodeFrom group pads bytes rest
      | some v =>
        match group with
        | .zero => decodeFrom (.one v) 0 bytes rest
        | .one bits => decodeFrom (.two (v % 16)) 0 (UInt8.ofNat (bits * 4 + v / 16) :: bytes) rest
        | .two bits => decodeFrom (.three (v % 4)) 0 (UInt8.ofNat (bits * 16 + v / 4) :: bytes) rest
        | .three bits => decodeFrom .zero 0 (UInt8.ofNat (bits * 64 + v) :: bytes) rest

/-- The bytes that a text stands for. -/
def decode (text : List Char) : Except Fault (List UInt8) :=
  decodeFrom .zero 0 [] text

end ContentCatalog.Text.Base64
