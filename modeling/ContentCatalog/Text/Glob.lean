/-!
# Glob patterns

A pattern is a list of pieces: a character, any single character, any run of
characters, or a bracketed set.  The slash is an ordinary character here, so a
star reaches across directories.

* `accepts_literal` : a pattern without special characters accepts itself only.
-/

namespace ContentCatalog.Text.Glob

/-- A member of a bracketed set: the characters from `low` to `high`. -/
structure Span where
  low : Char
  high : Char
  deriving DecidableEq, Repr

/-- A piece of a pattern. -/
inductive Piece where
  | char (c : Char)
  | any
  | star
  | set (negated : Bool) (spans : List Span)
  deriving DecidableEq, Repr

/-- The members of a bracketed set.  A hyphen between two characters makes a
span; anywhere else it stands for itself. -/
def spans : List Char → List Span
  | [] => []
  | low :: '-' :: high :: rest => ⟨low, high⟩ :: spans rest
  | c :: rest => ⟨c, c⟩ :: spans rest

/-- The text up to the closing bracket and what follows it. -/
def beforeBracket? : List Char → Option (List Char × List Char)
  | [] => none
  | ']' :: rest => some ([], rest)
  | c :: rest => (beforeBracket? rest).map fun (inside, after) => (c :: inside, after)

/-- The inside of a bracketed set and what follows it; a closing bracket that
comes first belongs to the inside. -/
def inside? : List Char → Option (List Char × List Char)
  | [] => none
  | c :: rest => (beforeBracket? rest).map fun (inside, after) => (c :: inside, after)

/-- The set that an opening bracket begins and what follows it, if a closing
bracket comes. -/
def set? : List Char → Option (Piece × List Char)
  | '!' :: rest => (inside? rest).map fun (inside, after) => (.set true (spans inside), after)
  | rest => (inside? rest).map fun (inside, after) => (.set false (spans inside), after)

/-- Behind a closing bracket less is left than before it. -/
theorem beforeBracket?_length {text inside after : List Char}
    (h : beforeBracket? text = some (inside, after)) : after.length < text.length := by
  fun_induction beforeBracket? text generalizing inside after with
  | case1 => simp at h
  | case2 rest => simp only [Option.some.injEq, Prod.mk.injEq] at h; obtain ⟨_, rfl⟩ := h; simp
  | case3 c rest _ ih =>
    simp only [Option.map_eq_some_iff, Prod.exists, Prod.mk.injEq] at h
    obtain ⟨a, b, h, _, rfl⟩ := h
    exact Nat.lt_succ_of_lt (ih h)

/-- So it is behind the inside of a set. -/
theorem inside?_length {text inside after : List Char}
    (h : inside? text = some (inside, after)) : after.length < text.length := by
  cases text with
  | nil => simp [inside?] at h
  | cons c rest =>
    simp only [inside?, Option.map_eq_some_iff, Prod.exists, Prod.mk.injEq] at h
    obtain ⟨a, b, h, _, rfl⟩ := h
    exact Nat.lt_succ_of_lt (beforeBracket?_length h)

/-- And behind a whole set, which makes the reader of patterns end. -/
theorem set?_length {text after : List Char} {piece : Piece}
    (h : set? text = some (piece, after)) : after.length < text.length := by
  unfold set? at h
  split at h
  · simp only [Option.map_eq_some_iff, Prod.exists, Prod.mk.injEq] at h
    obtain ⟨a, b, h, _, rfl⟩ := h
    exact Nat.lt_succ_of_lt (inside?_length h)
  · simp only [Option.map_eq_some_iff, Prod.exists, Prod.mk.injEq] at h
    obtain ⟨a, b, h, _, rfl⟩ := h
    exact inside?_length h

/-- A star in front of the pieces; two stars in a row are one. -/
def consStar : List Piece → List Piece
  | .star :: pieces => .star :: pieces
  | pieces => .star :: pieces

/-- The pieces of a pattern.  An opening bracket without its partner stands for
itself. -/
def pieces : List Char → List Piece
  | [] => []
  | '*' :: rest => consStar (pieces rest)
  | '?' :: rest => .any :: pieces rest
  | '[' :: rest =>
    match _h : set? rest with
    | some (piece, after) => piece :: pieces after
    | none => .char '[' :: pieces rest
  | c :: rest => .char c :: pieces rest
termination_by text => text.length
decreasing_by
  · exact Nat.lt_succ_self _
  · exact Nat.lt_succ_self _
  · exact Nat.lt_succ_of_lt (set?_length _h)
  · exact Nat.lt_succ_self _
  · exact Nat.lt_succ_self _

/-- The character is one of the set. -/
def inSpans (spans : List Span) (c : Char) : Bool :=
  spans.any fun span => span.low ≤ c && c ≤ span.high

/-- The rest of the pattern, tried on every ending of the text. -/
def onSomeEnding (accept : List Char → Bool) : List Char → Bool
  | [] => accept []
  | c :: rest => accept (c :: rest) || onSomeEnding accept rest

/-- The pieces describe the whole text. -/
def accepts : List Piece → List Char → Bool
  | [], text => text.isEmpty
  | .star :: pieces, text => onSomeEnding (accepts pieces) text
  | _ :: _, [] => false
  | .char p :: pieces, c :: text => p == c && accepts pieces text
  | .any :: pieces, _ :: text => accepts pieces text
  | .set negated spans :: pieces, c :: text => (inSpans spans c != negated) && accepts pieces text

/-- The pattern describes the whole text, capital and small letters apart. -/
def isMatch (pattern text : List Char) : Bool :=
  accepts (pieces pattern) text

/-- The three characters that make a pattern more than a text. -/
def isWildcard (c : Char) : Bool :=
  c == '*' || c == '?' || c == '['

/-- A pattern without wildcards is taken character by character. -/
theorem pieces_literal (pattern : List Char) (h : ∀ c ∈ pattern, isWildcard c = false) :
    pieces pattern = pattern.map .char := by
  induction pattern with
  | nil => simp [pieces]
  | cons c rest ih =>
    have hc := h c (by simp)
    have hr := ih fun d hd => h d (List.mem_cons_of_mem _ hd)
    simp only [isWildcard, Bool.or_eq_false_iff, beq_eq_false_iff_ne, ne_eq] at hc
    obtain ⟨⟨h1, h2⟩, h3⟩ := hc
    rw [pieces, hr]
    · rfl
    all_goals simp_all

/-- Such a pattern accepts nothing but its own text. -/
theorem accepts_map_char (pattern text : List Char) :
    accepts (pattern.map .char) text = (pattern == text) := by
  induction pattern generalizing text with
  | nil => cases text <;> rfl
  | cons c rest ih =>
    cases text with
    | nil => rfl
    | cons d text => simp [accepts, ih]

/-- A pattern without special characters accepts itself only. -/
theorem accepts_literal (pattern text : List Char) (h : ∀ c ∈ pattern, isWildcard c = false) :
    isMatch pattern text = (pattern == text) := by
  rw [isMatch, pieces_literal pattern h, accepts_map_char]

end ContentCatalog.Text.Glob
