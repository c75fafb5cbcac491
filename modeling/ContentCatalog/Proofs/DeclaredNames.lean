import ContentCatalog.Source.Props
import Mathlib.Data.Bool.AllAny
import Mathlib.Data.List.DropRight

/-!
# Names in scripts

What the readers of declared props share: white space is taken off the ends of a text,
an identifier is read as far as word characters go, and a header is looked for from the
front.

* `strip_between`, `exists_strip` : white space around a text without white space at its ends;
* `isSpace_of_isWord`, `isSpace_of_endsLine` : word characters are no white space, line ends
  are;
* `identifier?_of_isIdentifier` : an identifier is read up to what is no word character;
* `afterFirst?_append` : text without a header in front of one makes no difference.
-/

namespace ContentCatalog.Text

/-! ### White space at the ends -/

/-- A last character of the class is taken off. -/
theorem trimRight_append_single_pos {p : Char → Bool} (text : List Char) {c : Char}
    (h : p c = true) : trimRight p (text ++ [c]) = trimRight p text := by
  induction text with
  | nil => simp [trimRight, h]
  | cons d rest ih => rw [List.cons_append, trimRight, ih, trimRight]

/-- Trimming at the end is dropping from the right. -/
theorem trimRight_eq_rdropWhile (p : Char → Bool) (text : List Char) :
    trimRight p text = text.rdropWhile p := by
  induction text using List.reverseRecOn with
  | nil => rfl
  | append_singleton text c ih =>
      by_cases hc : p c = true
      · rw [trimRight_append_single_pos text hc, List.rdropWhile_concat_pos _ _ _ hc, ih]
      · rw [trimRight_append_single text (Bool.eq_false_iff.mpr hc),
          List.rdropWhile_concat_neg _ _ _ hc]

theorem trimRight_append_of_pos {p : Char → Bool} (text : List Char) {blanks : List Char}
    (h : ∀ c ∈ blanks, p c = true) : trimRight p (text ++ blanks) = trimRight p text := by
  induction blanks using List.reverseRecOn with
  | nil => rw [List.append_nil]
  | append_singleton blanks c ih =>
      obtain ⟨hblanks, hc⟩ := List.forall_mem_append.mp h
      rw [← List.append_assoc, trimRight_append_single_pos _ (hc c (List.mem_singleton_self c)),
        ih hblanks]

/-- A text that ends otherwise is left as it is. -/
theorem trimRight_eq_self {p : Char → Bool} {text : List Char}
    (h : ∀ c, text.getLast? = some c → p c = false) : trimRight p text = text := by
  rw [trimRight_eq_rdropWhile, List.rdropWhile_eq_self_iff]
  intro hne
  rw [h _ (List.getLast?_eq_some_getLast hne)]
  exact Bool.false_ne_true

/-- A text is what is kept of it and the blanks at its end. -/
theorem exists_blanks_behind (text : List Char) :
    ∃ kept blanks, (∀ c ∈ blanks, isSpace c = true) ∧ text = kept ++ blanks ∧
      ∀ c, kept.getLast? = some c → isSpace c = false := by
  refine ⟨text.rdropWhile isSpace, text.rtakeWhile isSpace, ?_, ?_, ?_⟩
  · exact fun c hc => List.mem_rtakeWhile_imp hc
  · exact (List.rdropWhile_append_rtakeWhile).symm
  · intro c hc
    have hne : text.rdropWhile isSpace ≠ [] := by
      intro hnil
      rw [hnil] at hc
      cases hc
    have hlast := List.rdropWhile_last_not isSpace text hne
    rw [List.getLast?_eq_some_getLast hne] at hc
    rwa [Option.some.inj hc, Bool.not_eq_true] at hlast

/-- A text that does not begin with the class is left as it is. -/
theorem trimLeft_eq_self {p : Char → Bool} {text : List Char}
    (h : ∀ c, text.head? = some c → p c = false) : trimLeft p text = text := by
  cases text with
  | nil => rfl
  | cons c rest => rw [trimLeft, List.dropWhile_cons_of_neg (by simp [h c rfl])]

/-- Characters of the class in front are taken off. -/
theorem trimLeft_append_of_pos {p : Char → Bool} {blanks : List Char} (text : List Char)
    (h : ∀ c ∈ blanks, p c = true) : trimLeft p (blanks ++ text) = trimLeft p text :=
  List.dropWhile_append_of_pos h

/-- The text begins with no white space. -/
def BeginsDark (text : List Char) : Prop :=
  ∀ c, text.head? = some c → isSpace c = false

/-- A text is the blanks at its front and what is left without them. -/
theorem exists_blanks (text : List Char) :
    ∃ blanks, (∀ c ∈ blanks, isSpace c = true) ∧ text = blanks ++ trimLeft isSpace text :=
  ⟨text.takeWhile isSpace, fun _ hc => List.mem_takeWhile_imp hc,
    (List.takeWhile_append_dropWhile).symm⟩

/-- In front of a text that begins dark, all blanks are taken off. -/
theorem trimLeft_blanks {blanks text : List Char} (hblanks : ∀ c ∈ blanks, isSpace c = true)
    (h : BeginsDark text) : trimLeft isSpace (blanks ++ text) = text := by
  rw [trimLeft_append_of_pos _ hblanks, trimLeft_eq_self h]

/-- What is left without the white space in front begins with none. -/
theorem beginsDark_trimLeft (text : List Char) : BeginsDark (trimLeft isSpace text) := by
  intro c hc
  have hhead := List.head?_dropWhile_not isSpace text
  rw [← trimLeft, hc] at hhead
  exact hhead

theorem isSpace_blank : ∀ c ∈ [' '], isSpace c = true :=
  List.all_iff_forall_prop.mp (by decide)

/-- A blank in front is left out. -/
theorem trimLeft_blank {text : List Char} (h : BeginsDark text) :
    trimLeft isSpace (' ' :: text) = text :=
  trimLeft_blanks isSpace_blank h

/-- A text that begins with a dark word begins dark. -/
theorem beginsDark_append {word : List Char} (rest : List Char) (hne : word ≠ [])
    (h : BeginsDark word) : BeginsDark (word ++ rest) := by
  intro c hc
  rw [List.head?_append_of_ne_nil _ hne] at hc
  exact h c hc

/-- No white space stands at the ends of the text. -/
structure IsStripped (text : List Char) : Prop where
  head : ∀ c, text.head? = some c → isSpace c = false
  last : ∀ c, text.getLast? = some c → isSpace c = false

/-- **White space around a text** is taken off, and no more. -/
theorem strip_between {before text after : List Char} (hbefore : ∀ c ∈ before, isSpace c = true)
    (h : IsStripped text) (hafter : ∀ c ∈ after, isSpace c = true) :
    strip (before ++ text ++ after) = text := by
  rw [strip, trim, List.append_assoc, trimLeft_append_of_pos _ hbefore]
  by_cases hne : text = []
  · have hnil : trimLeft isSpace after = [] := (trimLeft_eq_nil_iff _ _).mpr hafter
    rw [hne, List.nil_append, hnil]
    rfl
  · have hhead : trimLeft isSpace (text ++ after) = text ++ after := by
      apply trimLeft_eq_self
      rw [List.head?_append_of_ne_nil _ hne]
      exact h.head
    rw [hhead, trimRight_append_of_pos _ hafter, trimRight_eq_self h.last]

/-- A stripped text is left as it is. -/
theorem strip_eq_self {text : List Char} (h : IsStripped text) : strip text = text := by
  simpa using strip_between (List.forall_mem_nil _) h (List.forall_mem_nil _)

/-- **A text is what is left of it** with white space around. -/
theorem exists_strip (text : List Char) :
    ∃ before after, (∀ c ∈ before, isSpace c = true) ∧ (∀ c ∈ after, isSpace c = true) ∧
      text = before ++ strip text ++ after ∧ IsStripped (strip text) := by
  obtain ⟨before, hbefore, hfront⟩ := exists_blanks text
  obtain ⟨kept, after, hafter, hback, hlast⟩ := exists_blanks_behind (trimLeft isSpace text)
  have hstrip : strip text = kept := by
    rw [strip, trim, hback, trimRight_append_of_pos kept hafter, trimRight_eq_self hlast]
  rw [hstrip]
  refine ⟨before, after, hbefore, hafter, by rw [List.append_assoc, ← hback, ← hfront], ?_, hlast⟩
  intro c hc
  have hdark := beginsDark_trimLeft text
  rw [hback] at hdark
  have hne : kept ≠ [] := by
    rintro rfl
    cases hc
  exact hdark c (by rw [List.head?_append_of_ne_nil _ hne, hc])

/-- Only white space is taken off. -/
theorem mem_strip {c : Char} {text : List Char} (h : c ∈ text) (hc : isSpace c = false) :
    c ∈ strip text := by
  obtain ⟨before, after, hbefore, hafter, htext, -⟩ := exists_strip text
  have hdark : ∀ blanks : List Char, (∀ d ∈ blanks, isSpace d = true) → c ∉ blanks := by
    intro blanks hblanks hm
    rw [hblanks c hm] at hc
    cases hc
  rw [htext] at h
  rcases List.mem_append.mp h with h | h
  · exact (List.mem_append.mp h).resolve_left (hdark before hbefore)
  · exact absurd h (hdark after hafter)

/-- One blank more in front makes no difference. -/
theorem strip_cons_space {c : Char} (text : List Char) (h : isSpace c = true) :
    strip (c :: text) = strip text := by
  rw [strip, strip, trim, trim, trimLeft, List.dropWhile_cons_of_pos h, trimLeft]

/-! ### Classes of characters -/

/-- A character of a class is none outside of it. -/
theorem ne_of_class {p : Char → Bool} {c d : Char} (hc : p c = true) (hd : p d = false) :
    c ≠ d := by
  intro heq
  rw [heq, hd] at hc
  cases hc

/-- A line end is white space. -/
theorem isSpace_of_endsLine {c : Char} (h : endsLine c = true) : isSpace c = true := by
  simp only [endsLine, isSpace, Bool.or_eq_true, Bool.and_eq_true, decide_eq_true_eq,
    beq_iff_eq] at h ⊢
  omega

/-- The white space above ASCII. -/
def wideSpaces : List Nat :=
  [0x85, 0xA0, 0x1680, 0x2000, 0x2001, 0x2002, 0x2003, 0x2004, 0x2005, 0x2006, 0x2007, 0x2008,
    0x2009, 0x200A, 0x2028, 0x2029, 0x202F, 0x205F, 0x3000]

/-- A blank above ASCII is one of the table. -/
theorem mem_wideSpaces {c : Char} (h : isSpace c = true) (hc : 128 ≤ c.toNat) :
    c.toNat ∈ wideSpaces := by
  simp only [isSpace, Bool.or_eq_true, Bool.and_eq_true, decide_eq_true_eq, beq_iff_eq] at h
  simp only [wideSpaces, List.mem_cons, List.not_mem_nil, or_false]
  omega

/-- **A word character is no white space.** -/
theorem isSpace_of_isWord {c : Char} (h : isWord c = true) : isSpace c = false := by
  by_contra hspace
  rw [Bool.not_eq_false] at hspace
  by_cases hc : c.toNat < 128
  · rw [isWord_of_ascii hc] at h
    simp only [isAsciiWord, isAsciiLetter, isAsciiDigit, Bool.or_eq_true, Bool.and_eq_true,
      decide_eq_true_eq, beq_iff_eq, Char.le_def, UInt32.le_iff_toNat_le] at h
    simp only [isSpace, Bool.or_eq_true, Bool.and_eq_true, decide_eq_true_eq,
      beq_iff_eq] at hspace
    have hlower : ('a'.val.toNat = 97) := rfl
    have hupper : ('A'.val.toNat = 65) := rfl
    have hdigit : ('0'.val.toNat = 48) := rfl
    have hval : c.toNat = c.val.toNat := rfl
    rcases h with (h | h) | rfl
    · omega
    · omega
    · revert hspace
      decide
  · have haway : ∀ n ∈ wideSpaces, wideWord.mem n = false := by decide +kernel
    rw [isWord, if_neg hc, haway _ (mem_wideSpaces hspace (by omega))] at h
    cases h

/-- A word character of ASCII is a word character. -/
theorem isWord_of_isAsciiWord {c : Char} (h : isAsciiWord c = true) : isWord c = true := by
  have hc : c.toNat < 128 := by
    simp only [isAsciiWord, isAsciiLetter, isAsciiDigit, Bool.or_eq_true, Bool.and_eq_true,
      decide_eq_true_eq, beq_iff_eq, Char.le_def, UInt32.le_iff_toNat_le] at h
    rcases h with ((⟨-, h⟩ | ⟨-, h⟩) | ⟨-, h⟩) | rfl
    · exact Nat.lt_of_le_of_lt h (by decide)
    · exact Nat.lt_of_le_of_lt h (by decide)
    · exact Nat.lt_of_le_of_lt h (by decide)
    · decide
  rwa [isWord_of_ascii hc]

/-- Letters and the underscore are word characters. -/
theorem isWord_of_isAsciiLetter {c : Char} (h : (isAsciiLetter c || c == '_') = true) :
    isWord c = true := by
  apply isWord_of_isAsciiWord
  rw [isAsciiWord]
  simp only [Bool.or_eq_true] at h ⊢
  rcases h with h | h
  · exact .inl (.inl h)
  · exact .inr h

end ContentCatalog.Text

namespace ContentCatalog.Source

open Text

/-! ### Identifiers -/

/-- A letter of ASCII or an underscore, and word characters behind it. -/
def IsIdentifier (name : List Char) : Prop :=
  ∃ first rest, name = first :: rest ∧ (isAsciiLetter first || first == '_') = true ∧
    ∀ c ∈ rest, isWord c = true

/-- An identifier is made of word characters. -/
theorem IsIdentifier.isWord {name : List Char} (h : IsIdentifier name) :
    ∀ c ∈ name, isWord c = true := by
  obtain ⟨first, rest, rfl, hfirst, hrest⟩ := h
  exact List.forall_mem_cons.mpr ⟨isWord_of_isAsciiLetter hfirst, hrest⟩

/-- What is no word character is not in an identifier. -/
theorem IsIdentifier.not_mem {name : List Char} (h : IsIdentifier name) {c : Char}
    (hc : Text.isWord c = false) : c ∉ name := by
  intro hm
  rw [h.isWord c hm] at hc
  cases hc

theorem IsIdentifier.isStripped {name : List Char} (h : IsIdentifier name) : IsStripped name where
  head := fun c hc => isSpace_of_isWord (h.isWord c (List.mem_of_mem_head? hc))
  last := fun c hc => isSpace_of_isWord (h.isWord c (List.mem_of_mem_getLast? hc))

theorem IsIdentifier.ne_nil {name : List Char} (h : IsIdentifier name) : name ≠ [] := by
  obtain ⟨first, rest, rfl, -⟩ := h
  exact List.cons_ne_nil first rest

/-- What is read as an identifier is one. -/
theorem isIdentifier_of_identifier? {text name rest : List Char}
    (h : identifier? text = some (name, rest)) : IsIdentifier name := by
  cases text with
  | nil => cases h
  | cons c text =>
      rw [identifier?] at h
      split at h
      · next hfirst =>
          obtain ⟨rfl, -⟩ := Prod.mk.inj (Option.some.inj h)
          exact ⟨c, _, rfl, hfirst, fun d hd => List.mem_takeWhile_imp hd⟩
      · cases h

/-- **An identifier is read** up to what is no word character. -/
theorem identifier?_of_isIdentifier {name rest : List Char} (h : IsIdentifier name)
    (hrest : ∀ c, rest.head? = some c → isWord c = false) :
    identifier? (name ++ rest) = some (name, rest) := by
  obtain ⟨first, others, rfl, hfirst, hothers⟩ := h
  have htake : rest.takeWhile isWord = [] := by
    cases rest with
    | nil => rfl
    | cons c rest => rw [List.takeWhile_cons_of_neg (by simp [hrest c rfl])]
  rw [List.cons_append, identifier?, if_pos hfirst, List.takeWhile_append_of_pos hothers,
    List.dropWhile_append_of_pos hothers, htake, List.append_nil]
  rw [show rest.dropWhile isWord = rest from trimLeft_eq_self hrest]

/-! ### Headers -/

/-- **Where no header begins in front** of a text, the first one is that of the text. -/
theorem afterFirst?_append {header? : List Char → Option (List Char)} {before : List Char}
    (text : List Char)
    (h : ∀ skipped rest, before = skipped ++ rest → rest ≠ [] → header? (rest ++ text) = none) :
    afterFirst? header? (before ++ text) = afterFirst? header? text := by
  induction before with
  | nil => rfl
  | cons c before ih =>
      have hhere : header? (c :: (before ++ text)) = none :=
        h [] (c :: before) rfl (List.cons_ne_nil _ _)
      rw [List.cons_append, afterFirst?, hhere, Option.none_or]
      apply ih
      intro skipped rest heq hne
      exact h (c :: skipped) rest (by rw [heq, List.cons_append]) hne

/-- A first header stands somewhere in the text. -/
theorem exists_of_afterFirst? {header? : List Char → Option (List Char)} {text rest : List Char}
    (h : afterFirst? header? text = some rest) :
    ∃ before other, text = before ++ other ∧ header? other = some rest := by
  induction text with
  | nil => exact ⟨[], [], rfl, h⟩
  | cons c text ih =>
      rw [afterFirst?] at h
      rcases Option.or_eq_some_iff.mp h with hhere | ⟨-, hlater⟩
      · exact ⟨[], c :: text, rfl, hhere⟩
      · obtain ⟨before, other, rfl, hother⟩ := ih hlater
        exact ⟨c :: before, other, rfl, hother⟩

/-- A header at the very front is the first one. -/
theorem afterFirst?_of_header {header? : List Char → Option (List Char)} {text rest : List Char}
    (h : header? text = some rest) : afterFirst? header? text = some rest := by
  cases text with
  | nil => exact h
  | cons c text => rw [afterFirst?, h, Option.some_or]

end ContentCatalog.Source
