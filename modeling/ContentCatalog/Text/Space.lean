/-!
# White space

The characters that count as white space, and the removal of white space (or of
any other class of characters) from the ends of a text.

* `trimLeft_eq_nil_iff` : nothing is left exactly when every character belongs to
  the class;
* `trimRight_append_single` : a last character outside the class is kept, and
  everything before it.
-/

namespace ContentCatalog.Text

/-- White space: the blanks and line ends of Unicode together with the four
ASCII information separators. -/
def isSpace (c : Char) : Bool :=
  let n := c.toNat
  (9 ≤ n && n ≤ 13) || (28 ≤ n && n ≤ 32) || n == 0x85 || n == 0xA0 || n == 0x1680
    || (0x2000 ≤ n && n ≤ 0x200A) || n == 0x2028 || n == 0x2029 || n == 0x202F
    || n == 0x205F || n == 0x3000

/-- The text without the characters of class `p` at its start. -/
def trimLeft (p : Char → Bool) (text : List Char) : List Char :=
  text.dropWhile p

/-- The text without the characters of class `p` at its end. -/
def trimRight (p : Char → Bool) : List Char → List Char
  | [] => []
  | c :: rest =>
    match trimRight p rest with
    | [] => if p c then [] else [c]
    | kept => c :: kept

/-- The text without the characters of class `p` at either end. -/
def trim (p : Char → Bool) (text : List Char) : List Char :=
  trimRight p (trimLeft p text)

/-- The text without white space at either end. -/
def strip (text : List Char) : List Char :=
  trim isSpace text

/-- Nothing is left exactly when every character belongs to the class. -/
theorem trimLeft_eq_nil_iff (p : Char → Bool) (text : List Char) :
    trimLeft p text = [] ↔ ∀ c ∈ text, p c = true := by
  induction text with
  | nil => simp [trimLeft]
  | cons c rest ih =>
    by_cases hc : p c = true
    · simp only [trimLeft, List.dropWhile_cons, hc, if_true, List.mem_cons, forall_eq_or_imp,
        true_and]
      exact ih
    · simp [trimLeft, hc]

/-- A last character outside the class ends the trimming. -/
theorem trimRight_append_single {p : Char → Bool} (text : List Char) {c : Char}
    (h : p c = false) : trimRight p (text ++ [c]) = text ++ [c] := by
  induction text with
  | nil => simp [trimRight, h]
  | cons d rest ih =>
    rw [List.cons_append, trimRight, ih]
    cases rest <;> rfl

end ContentCatalog.Text
