/-!
# Pieces of a text

Cutting a text at a separator, at a known beginning or end, and at the first
place where something occurs.

* `segments_ne_nil` : there is always at least one segment;
* `afterStart?_eq_some_iff`, `beforeEnd?_eq_some_iff` : what is left over is
  exactly the other part of the text;
* `afterStart?_append_cons` : a beginning is read no further than a character that
  is not in it;
* `append_of_cut?` : the two sides of a cut, with what was searched between
  them, are the text again;
* `cut?_of_not_mem`, `cut?_eq_none` : a text is cut at the first place of a character,
  if it has one.
-/

namespace ContentCatalog.Text

/-- The parts of the text between the separators: one more than there are
separators, possibly empty. -/
def segments (separator : Char) : List Char → List (List Char)
  | [] => [[]]
  | c :: rest =>
    if c = separator then [] :: segments separator rest
    else
      match segments separator rest with
      | [] => [[c]]
      | first :: others => (c :: first) :: others

/-- Every text has a segment. -/
theorem segments_ne_nil (separator : Char) (text : List Char) :
    segments separator text ≠ [] := by
  cases text with
  | nil => simp [segments]
  | cons c rest =>
    rw [segments]
    split
    · simp
    · split <;> simp

/-- What follows the given beginning, if the text begins so. -/
def afterStart? : List Char → List Char → Option (List Char)
  | [], text => some text
  | _ :: _, [] => none
  | s :: start, c :: text => if s = c then afterStart? start text else none

/-- The text begins so. -/
def startsWith (start text : List Char) : Bool :=
  (afterStart? start text).isSome

/-- What precedes the given end, if the text ends so. -/
def beforeEnd? (finish text : List Char) : Option (List Char) :=
  (afterStart? finish.reverse text.reverse).map List.reverse

/-- The text ends so. -/
def endsWith (finish text : List Char) : Bool :=
  (beforeEnd? finish text).isSome

/-- The parts of the text before and after the first place where `needle`
occurs. -/
def cut? (needle : List Char) : List Char → Option (List Char × List Char)
  | [] => (afterStart? needle []).map fun after => ([], after)
  | c :: rest =>
    match afterStart? needle (c :: rest) with
    | some after => some ([], after)
    | none => (cut? needle rest).map fun (before, after) => (c :: before, after)

/-- The text holds `needle` somewhere. -/
def occurs (needle text : List Char) : Bool :=
  (cut? needle text).isSome

/-- The texts with the joint between each two of them. -/
def joined (joint : List Char) : List (List Char) → List Char
  | [] => []
  | [last] => last
  | first :: second :: others => first ++ joint ++ joined joint (second :: others)

/-- The joint stands behind every part but the last one. -/
theorem joined_cons (joint first : List Char) {others : List (List Char)} (h : others ≠ []) :
    joined joint (first :: others) = first ++ joint ++ joined joint others := by
  cases others with
  | nil => exact absurd rfl h
  | cons second others => rfl

/-- What stands behind a start is the rest of the text. -/
theorem afterStart?_eq_some_iff {start text rest : List Char} :
    afterStart? start text = some rest ↔ text = start ++ rest := by
  induction start generalizing text with
  | nil => simp [afterStart?, eq_comm]
  | cons s start ih =>
    cases text with
    | nil => simp [afterStart?]
    | cons c text =>
      by_cases h : s = c
      · simp [afterStart?, h, ih]
      · simp only [afterStart?, h, if_false, List.cons_append, List.cons.injEq]
        constructor
        · intro h'; cases h'
        · rintro ⟨rfl, _⟩; exact absurd rfl h

/-- A start that was put in front is found there. -/
theorem afterStart?_append (start rest : List Char) :
    afterStart? start (start ++ rest) = some rest :=
  afterStart?_eq_some_iff.mpr rfl

/-- A start without a character is looked for in front of that character only. -/
theorem afterStart?_append_cons {start line : List Char} {c : Char} (rest : List Char)
    (h : c ∉ start) :
    afterStart? start (line ++ c :: rest) =
      (afterStart? start line).map fun tail => tail ++ c :: rest := by
  induction start generalizing line with
  | nil => simp [afterStart?]
  | cons s start ih =>
    have hs : s ≠ c := fun heq => h (heq ▸ List.mem_cons_self)
    have hn : c ∉ start := fun hm => h (List.mem_cons_of_mem _ hm)
    cases line with
    | nil => simp [afterStart?, hs]
    | cons d line =>
      by_cases hd : s = d
      · simp [afterStart?, hd, ih hn]
      · simp [afterStart?, hd]

/-- What stands before an end is the rest of the text. -/
theorem beforeEnd?_eq_some_iff {finish text rest : List Char} :
    beforeEnd? finish text = some rest ↔ text = rest ++ finish := by
  simp only [beforeEnd?, Option.map_eq_some_iff, afterStart?_eq_some_iff]
  constructor
  · rintro ⟨a, h, rfl⟩
    simpa using congrArg List.reverse h
  · rintro rfl
    exact ⟨rest.reverse, by simp, by simp⟩

/-- The two sides of a cut make up the text, with the needle between them. -/
theorem append_of_cut? {needle text before after : List Char}
    (h : cut? needle text = some (before, after)) : text = before ++ needle ++ after := by
  induction text generalizing before with
  | nil =>
    simp only [cut?, Option.map_eq_some_iff, afterStart?_eq_some_iff, Prod.mk.injEq] at h
    obtain ⟨a, h, rfl, rfl⟩ := h
    simpa using h
  | cons c rest ih =>
    rw [cut?] at h
    split at h
    · next hs =>
      simp only [Option.some.injEq, Prod.mk.injEq] at h
      obtain ⟨rfl, rfl⟩ := h
      simpa [afterStart?_eq_some_iff] using hs
    · simp only [Option.map_eq_some_iff] at h
      obtain ⟨⟨b, a⟩, h, heq⟩ := h
      simp only [Prod.mk.injEq] at heq
      obtain ⟨rfl, rfl⟩ := heq
      simp [ih h]

/-- A text is cut at a character where it stands first. -/
theorem cut?_of_not_mem {c : Char} {before : List Char} (after : List Char) (h : c ∉ before) :
    cut? [c] (before ++ c :: after) = some (before, after) := by
  induction before with
  | nil => simp [cut?, afterStart?]
  | cons d before ih =>
    rw [List.mem_cons, not_or] at h
    simp [cut?, afterStart?, h.1, ih h.2]

/-- A text without the character is not cut. -/
theorem cut?_eq_none {c : Char} {text : List Char} (h : c ∉ text) : cut? [c] text = none := by
  rw [Option.eq_none_iff_forall_ne_some]
  rintro ⟨before, after⟩ hcut
  rw [append_of_cut? hcut] at h
  simp at h

end ContentCatalog.Text
