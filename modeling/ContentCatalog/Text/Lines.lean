/-!
# Lines

Two views of line ends.  `lineList` cuts a text at every character that ends a
line, a carriage return with its line feed counting once; `unifyBreaks` turns
the three line ends of ordinary files into the line feed.
-/

namespace ContentCatalog.Text

/-- The characters that end a line: the vertical ASCII controls, three of the
information separators, and the line ends of Unicode. -/
def endsLine (c : Char) : Bool :=
  let n := c.toNat
  (10 ≤ n && n ≤ 13) || (28 ≤ n && n ≤ 30) || n == 0x85 || n == 0x2028 || n == 0x2029

/-- Put a character in front of the first line. -/
def consLine (c : Char) : List (List Char) → List (List Char)
  | [] => [[c]]
  | line :: lines => (c :: line) :: lines

/-- The lines of a text without their ends; an end at the very end of the text
opens no further line. -/
def lineList : List Char → List (List Char)
  | [] => []
  | '\r' :: '\n' :: rest => [] :: lineList rest
  | c :: rest => if endsLine c then [] :: lineList rest else consLine c (lineList rest)

/-- Every carriage return, alone or with a line feed after it, becomes one line
feed. -/
def unifyBreaks : List Char → List Char
  | [] => []
  | '\r' :: '\n' :: rest => '\n' :: unifyBreaks rest
  | '\r' :: rest => '\n' :: unifyBreaks rest
  | c :: rest => c :: unifyBreaks rest

end ContentCatalog.Text
