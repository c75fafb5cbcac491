import ContentCatalog.Proofs.NumberReading
import ContentCatalog.Proofs.ScanStages

/-!
# Defaults of props

A component's source is read whatever it holds, with one exception: a default that is
a whole number of too many digits.

* `literal_of_short` : a literal is read unless it is such a number;
* `component_of_short` : a source is read unless it has such a default.
-/

namespace ContentCatalog.Source

open Text Number

/-- The literal is a whole number with too many digits to be read. -/
def LongNumeral (text : List Char) : Prop :=
  ∃ negative body, literalText text = minus negative ++ body ∧
    (∀ c ∈ body, isDigit c = true) ∧ digitLimit < body.length

/-- The texts of the defaults that a script gives to props. -/
def defaultTexts (script : List Char) : List (List Char) :=
  match (afterFirst? destructuringHeader? script).bind untilProps? with
  | some body => (((segments ',' body).map strip).filterMap destructuringEntry?).filterMap Prod.snd
  | none => []

/-! ### Literals -/

/-- A text of digits has one at least and nothing else. -/
theorem isDigits_iff {text : List Char} :
    isDigits text = true ↔ text ≠ [] ∧ ∀ c ∈ text, isDigit c = true := by
  rw [isDigits, Bool.and_eq_true, Bool.not_eq_true', List.isEmpty_eq_false_iff, List.all_eq_true]

/-- What a plain number is made of: its sign, and digits or digits on both sides of a
point. -/
theorem parts_of_isPlainNumber {text : List Char} (h : isPlainNumber text = true) :
    ∃ negative, (∃ body, text = minus negative ++ body ∧ isDigits body = true) ∨
      ∃ whole fraction, text = minus negative ++ (whole ++ '.' :: fraction) ∧
        isDigits whole = true ∧ isDigits fraction = true := by
  have hsign : ∃ negative, text = minus negative ++ (afterStart? ['-'] text).getD text := by
    cases hs : afterStart? ['-'] text with
    | none => exact ⟨false, rfl⟩
    | some rest => exact ⟨true, afterStart?_eq_some_iff.mp hs⟩
  obtain ⟨negative, hsign⟩ := hsign
  refine ⟨negative, ?_⟩
  unfold isPlainNumber at h
  simp only at h
  split at h
  · next whole fraction hcut =>
      rw [Bool.and_eq_true] at h
      refine .inr ⟨whole, fraction, ?_, h.1, h.2⟩
      have hwhole := append_of_cut? hcut
      rw [List.append_assoc] at hwhole
      rwa [hwhole] at hsign
  · exact .inl ⟨_, hsign, h⟩

/-- Digits and the point of a number are none of its blanks. -/
theorem not_blank_of_isDigit {c : Char} (h : isDigit c = true) :
    isNumberBlank (numeral c) = false := by
  obtain ⟨d, hd⟩ := Option.isSome_iff_exists.mp h
  exact (digit_facts (digitIn?_of_isDigit hd)).1

/-- A text of digits is read as a whole number if it is short enough. -/
theorem readInteger_of_isDigits (negative : Bool) {body : List Char} (h : isDigits body = true)
    (hshort : body.length ≤ digitLimit) :
    readInteger 10 (minus negative ++ body) =
      .ok (signedValue negative (wholeOfDigits 10 (digitValues body))) := by
  obtain ⟨hne, hall⟩ := isDigits_iff.mp h
  rw [readInteger_of_digits negative hne (allDigits?_of_mapM (mapM_digitValue? hall)),
    if_neg (by omega)]

/-- Digits on both sides of a point are read as a decimal fraction. -/
theorem readDecimal_of_isDigits (negative : Bool) {whole fraction : List Char}
    (hw : isDigits whole = true) (hf : isDigits fraction = true) :
    readDecimal (minus negative ++ (whole ++ '.' :: fraction)) =
      .ok (decimalOf negative (digitValues whole ++ digitValues fraction) fraction.length 0) := by
  obtain ⟨hne, hwhole⟩ := isDigits_iff.mp hw
  obtain ⟨-, hfraction⟩ := isDigits_iff.mp hf
  have hseen : (whole ++ '.' :: fraction).map numeral =
      whole.map numeral ++ '.' :: (fraction.map numeral ++ []) := by
    rw [List.map_append, List.map_cons, List.append_nil]
    rfl
  obtain ⟨c, rest, hcons⟩ := List.exists_cons_of_ne_nil hne
  have hread := readFraction?_point negative (by simpa using hne)
    (allDigits?_of_mapM (mapM_digitValue? hwhole))
    (allDigits?_of_mapM (mapM_digitValue? hfraction)) endsDigits_nil rfl
  rw [List.length_map] at hread
  apply readDecimal_of_fraction negative _ _ (hseen ▸ hread)
  · intro other hm
    rcases List.mem_append.mp hm with hm | hm
    · exact not_blank_of_isDigit (hwhole other hm)
    · rcases List.mem_cons.mp hm with heq | hm
      · rw [heq]
        decide
      · exact not_blank_of_isDigit (hfraction other hm)
  · obtain ⟨d, hd⟩ := Option.isSome_iff_exists.mp (hwhole c (by simp [hcons]))
    exact ⟨_, _, d, by rw [hcons]; rfl, digitIn?_of_isDigit hd⟩

/-- **A literal is read** unless it is a whole number of too many digits. -/
theorem literal_of_short {text : List Char} (h : ¬ LongNumeral text) :
    ∃ read, literal text = .ok read := by
  unfold literal
  simp only
  split
  · exact ⟨_, rfl⟩
  · split
    · exact ⟨_, rfl⟩
    · split
      · exact ⟨_, rfl⟩
      · split
        · next hplain =>
            obtain ⟨negative, hparts⟩ := parts_of_isPlainNumber hplain
            rcases hparts with ⟨body, heq, hdigits⟩ | ⟨whole, fraction, heq, hw, hf⟩
            · have hall := (isDigits_iff.mp hdigits).2
              have hpoint : (literalText text).contains '.' = false := by
                rw [heq, List.contains_eq_mem, decide_eq_false_iff_not]
                intro hm
                rcases List.mem_append.mp hm with hm | hm
                · cases negative <;> simp at hm
                · exact absurd (hall '.' hm) (by decide)
              have hi := readInteger_of_isDigits negative hdigits (by
                by_contra hlong
                exact h ⟨negative, body, heq, hall, by omega⟩)
              rw [if_neg (by rw [hpoint]; exact Bool.false_ne_true), heq, hi]
              exact ⟨_, rfl⟩
            · have hpoint : (literalText text).contains '.' = true := by
                rw [heq]
                simp
              have hx := readDecimal_of_isDigits negative hw hf
              rw [if_pos hpoint, heq, hx]
              exact ⟨_, rfl⟩
        · split <;> exact ⟨_, rfl⟩

/-! ### Sources -/

/-- A prop whose default is short enough gives a field. -/
theorem destructuringField_of_short (key : List Char) {default : Option (List Char)}
    (h : ∀ text, default = some text → ¬ LongNumeral text) :
    ∃ field, destructuringField key default = .ok field := by
  cases default with
  | none => exact ⟨_, rfl⟩
  | some text =>
      obtain ⟨read, hr⟩ := literal_of_short (h text rfl)
      rw [destructuringField, hr]
      exact ⟨_, rfl⟩

/-- **A component's source is read** unless a default is a whole number of too many
digits. -/
theorem component_of_short {text : List Char}
    (h : ∀ default ∈ defaultTexts ((split text).frontmatter.getD []), ¬ LongNumeral default) :
    ∃ source, component text = .ok source := by
  have hfields : ∃ fields,
      destructuredFields ((split text).frontmatter.getD []) = .ok fields := by
    rw [defaultTexts] at h
    rw [destructuredFields]
    cases hbody : (afterFirst? destructuringHeader? ((split text).frontmatter.getD [])).bind
        untilProps? with
    | none => exact ⟨_, rfl⟩
    | some body =>
        rw [hbody] at h
        refine exists_mapM ?_
        intro entry hm
        refine destructuringField_of_short entry.1 ?_
        intro default heq
        exact h default (List.mem_filterMap.mpr ⟨entry, hm, heq⟩)
  obtain ⟨fields, hf⟩ := hfields
  rw [component]
  simp only [hf]
  exact ⟨_, rfl⟩

end ContentCatalog.Source
