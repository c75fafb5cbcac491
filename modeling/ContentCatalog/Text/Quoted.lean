import ContentCatalog.Text.Printable

/-!
# Quoted texts

The quoted form in which messages and composite keys show a text or a sequence
of bytes.  The single quote is the usual one; a text that holds single quotes
and no double quote is shown in double quotes.  The backslash and the chosen
quote are escaped, the tab and the two line ends have short escapes, and what
has no glyph is written as its code point.

* `quoteFor_not_mem` : the quote for a text is one of two, and a double one is
  not in the text.
-/

namespace ContentCatalog.Text

/-- The hexadecimal digit of a value below sixteen. -/
def hexDigit (n : Nat) : Char :=
  if n < 10 then Char.ofNat (48 + n) else Char.ofNat (87 + n)

/-- A number in exactly `width` lower-case hexadecimal digits, the higher ones
cut off. -/
def hexDigits : (width : Nat) → Nat → List Char
  | 0, _ => []
  | width + 1, n => hexDigits width (n / 16) ++ [hexDigit (n % 16)]

/-- A code point as an escape of the shortest width that holds it. -/
def escapedCode (n : Nat) : List Char :=
  if n < 0x100 then '\\' :: 'x' :: hexDigits 2 n
  else if n < 0x10000 then '\\' :: 'u' :: hexDigits 4 n
  else '\\' :: 'U' :: hexDigits 8 n

/-- The quote for a text: double exactly when it holds single quotes only. -/
def quoteFor (text : List Char) : Char :=
  if text.contains '\x27' && !text.contains '\x22' then '\x22' else '\x27'

/-- The double quote is chosen only for a text without one. -/
theorem quoteFor_not_mem (text : List Char) :
    quoteFor text = '\x27' ∨ quoteFor text = '\x22' ∧ '\x22' ∉ text := by
  unfold quoteFor
  split
  · next h =>
    simp only [Bool.and_eq_true, Bool.not_eq_true', List.contains_eq_mem, decide_eq_true_eq,
      decide_eq_false_iff_not] at h
    exact .inr ⟨rfl, h.2⟩
  · exact .inl rfl

/-- One character inside the given quotes. -/
def quotedChar (quote c : Char) : List Char :=
  if c == quote || c == '\\' then ['\\', c]
  else if c == '\t' then ['\\', 't']
  else if c == '\n' then ['\\', 'n']
  else if c == '\r' then ['\\', 'r']
  else if isPrintable c then [c]
  else escapedCode c.toNat

/-- The quoted form of a text. -/
def quoted (text : List Char) : List Char :=
  let quote := quoteFor text
  quote :: text.flatMap (quotedChar quote) ++ [quote]

/-- The quoted form of one character. -/
def quotedSingle (c : Char) : String :=
  String.ofList (quoted [c])

/-- The quoted form of a text. -/
def quotedText (text : String) : String :=
  String.ofList (quoted text.toList)

/-- One byte inside the given quotes: bytes beyond ASCII are escaped too. -/
def quotedByte (quote : Char) (b : UInt8) : List Char :=
  let c := Char.ofNat b.toNat
  if c == quote || c == '\\' then ['\\', c]
  else if c == '\t' then ['\\', 't']
  else if c == '\n' then ['\\', 'n']
  else if c == '\r' then ['\\', 'r']
  else if 32 ≤ b.toNat && b.toNat < 127 then [c]
  else escapedCode b.toNat

/-- The quoted form of a sequence of bytes, marked by a leading `b`. -/
def quotedBytes (bytes : List UInt8) : List Char :=
  let quote := quoteFor (bytes.map fun b => Char.ofNat b.toNat)
  'b' :: quote :: bytes.flatMap (quotedByte quote) ++ [quote]

end ContentCatalog.Text
