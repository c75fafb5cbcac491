import ContentCatalog.Json.Reader
import ContentCatalog.Proofs.PrintedNumbers
import Mathlib.Tactic.IntervalCases

/-!
# Printed texts and numbers are read back

In a printed document a scalar is followed by a comma or by a line feed.  So its text
ends where the reader stops, and the reader gives the scalar back.

* `quotedText_quoted` : texts, with their escapes;
* `number_parts` : a number is read to its end;
* `scalar_word`, `scalar_int`, `scalar_float` : all other scalars.
-/

namespace ContentCatalog.Json

open Number Text

/-- What follows a scalar in a printed document. -/
def Follows (rest : List Char) : Prop :=
  ∃ c tail, rest = c :: tail ∧ (c = ',' ∨ c = '\n')

/-! ### Texts -/

/-- A control is escaped by its number. -/
theorem exists_hexDigits {n : Nat} (h : n < 32) :
    ∃ a b c d, hexDigits 4 n = [a, b, c, d] ∧ codeUnit? a b c d = some n := by
  have hall : ∀ n < 32, codeUnit? (hexDigit (n / 16 / 16 / 16 % 16)) (hexDigit (n / 16 / 16 % 16))
      (hexDigit (n / 16 % 16)) (hexDigit (n % 16)) = some n := by
    decide
  exact ⟨_, _, _, _, rfl, hall n h⟩

/-- A character is escaped by a mark of its own or by its number, or stands for itself. -/
theorem escaped_cases (c : Char) :
    (∃ mark, escaped c = ['\\', mark] ∧ ∀ ahead, escape (mark :: ahead) = .ok (c, ahead)) ∨
      (c.toNat < 32 ∧ escaped c = '\\' :: 'u' :: hexDigits 4 c.toNat) ∨
      (escaped c = [c] ∧ c ≠ '\x22' ∧ c ≠ '\\' ∧ ¬ c.toNat < 32) := by
  by_cases hmark : c ∈ ['\x22', '\\', '\n', '\r', '\t', '\x08', '\x0c']
  · simp only [List.mem_cons, List.not_mem_nil, or_false] at hmark
    rcases hmark with rfl | rfl | rfl | rfl | rfl | rfl | rfl <;>
      exact .inl ⟨_, rfl, fun _ => rfl⟩
  · simp only [List.mem_cons, List.not_mem_nil, or_false, not_or] at hmark
    obtain ⟨hquote, hslash, hn, hr, ht, hb, hf⟩ := hmark
    by_cases hcontrol : c.toNat < 32
    · refine .inr (.inl ⟨hcontrol, ?_⟩)
      simp [escaped, *]
    · refine .inr (.inr ⟨?_, hquote, hslash, hcontrol⟩)
      simp [escaped, *]

/-- The number of a control is read as the control. -/
theorem escape_control {c next : Char} {tail : List Char} (h : c.toNat < 32) :
    escape ('u' :: (hexDigits 4 c.toNat ++ next :: tail)) = .ok (c, next :: tail) := by
  obtain ⟨a, b, d, e, hdigits, hunit⟩ := exists_hexDigits h
  have hhigh : isHighUnit c.toNat = false := by
    simp only [isHighUnit, Bool.and_eq_false_iff, decide_eq_false_iff_not]
    omega
  have hlow : isLowUnit c.toNat = false := by
    simp only [isLowUnit, Bool.and_eq_false_iff, decide_eq_false_iff_not]
    omega
  rw [hdigits]
  show codePoint (a :: b :: d :: e :: next :: tail) = _
  simp only [codePoint, hunit, hhigh, hlow, unitChar, Bool.or_self, Bool.false_eq_true, if_false,
    Char.ofNat_toNat]

/-- **An escape stands for its character.**  Something follows, if only the closing
quote. -/
theorem characters_escaped {opened : List Char} {fuel : Nat} {next : Char}
    {tail others rest : List Char} (c : Char)
    (h : characters opened fuel (next :: tail) = .ok (others, rest)) :
    characters opened (fuel + 1) (escaped c ++ next :: tail) = .ok (c :: others, rest) := by
  have hescape : ∀ ahead, ahead ≠ [] → escape ahead = .ok (c, next :: tail) →
      characters opened (fuel + 1) ('\\' :: ahead) = .ok (c :: others, rest) := by
    intro ahead hne hread
    rw [characters, if_neg (by decide), if_pos (by decide), if_neg (by simpa using hne), hread]
    simp only [bind, Except.bind, h]
    rfl
  rcases escaped_cases c with ⟨mark, heq, hread⟩ | ⟨hcontrol, heq⟩ | ⟨heq, hquote, hslash, hplain⟩
  · rw [heq]
    exact hescape _ (List.cons_ne_nil _ _) (hread _)
  · rw [heq]
    exact hescape _ (List.cons_ne_nil _ _) (escape_control hcontrol)
  · rw [heq, List.singleton_append, characters, if_neg (by simpa using hquote),
      if_neg (by simpa using hslash), if_neg hplain]
    simp only [bind, Except.bind, h]
    rfl

/-- A text is read up to its closing quote. -/
theorem characters_flatMap (opened : List Char) (text rest : List Char) {fuel : Nat}
    (h : text.length < fuel) :
    characters opened fuel (text.flatMap escaped ++ '\x22' :: rest) = .ok (text, rest) := by
  induction text generalizing fuel with
  | nil =>
      obtain ⟨fuel, rfl⟩ := Nat.exists_eq_succ_of_ne_zero (by omega : fuel ≠ 0)
      rfl
  | cons c text ih =>
      obtain ⟨fuel, rfl⟩ := Nat.exists_eq_succ_of_ne_zero (by omega : fuel ≠ 0)
      have hrest := ih (by simpa using h : text.length < fuel)
      rw [List.flatMap_cons, List.append_assoc]
      cases hahead : text.flatMap escaped ++ '\x22' :: rest with
      | nil => simp at hahead
      | cons next tail =>
          rw [hahead] at hrest
          exact characters_escaped c hrest

/-- No character vanishes in print. -/
theorem escaped_ne_nil (c : Char) : escaped c ≠ [] := by
  rcases escaped_cases c with ⟨mark, heq, -⟩ | ⟨-, heq⟩ | ⟨heq, -⟩ <;>
    · rw [heq]
      exact List.cons_ne_nil _ _

/-- An escaped text is not shorter. -/
theorem length_le_flatMap (text : List Char) : text.length ≤ (text.flatMap escaped).length := by
  induction text with
  | nil => exact le_refl _
  | cons c text ih =>
      have := List.length_pos_of_ne_nil (escaped_ne_nil c)
      rw [List.flatMap_cons, List.length_append, List.length_cons]
      omega

/-- A quoted text is its printed characters between quotes. -/
theorem toList_quoted (s : String) :
    (quoted s).toList = '\x22' :: (s.toList.flatMap escaped ++ ['\x22']) :=
  String.toList_ofList

/-- **A text in quotes is read back.** -/
theorem quotedText_quoted (s : String) (rest : List Char) :
    quotedText (s.toList.flatMap escaped ++ '\x22' :: rest) = .ok (s, rest) := by
  have hlength := length_le_flatMap s.toList
  rw [quotedText, characters_flatMap _ _ _ (by
    rw [List.length_append, List.length_cons]
    omega)]
  show Except.ok (String.ofList s.toList, rest) = _
  rw [String.ofList_toList]

/-! ### Numbers -/

/-- What follows a scalar ends its digits. -/
theorem Follows.endsDigits {rest : List Char} (h : Follows rest) : EndsDigits rest := by
  obtain ⟨c, tail, heq, hc⟩ := h
  rw [heq]
  rcases hc with hc | hc <;>
    · rw [hc]
      exact endsDigits_cons (by decide)

/-- Documents have the same digits as other texts with numbers. -/
theorem isAsciiDigit_eq : digits.isAsciiDigit = isAsciiDigitChar := by
  funext c
  rw [Bool.eq_iff_iff, digits.isAsciiDigit, isAsciiDigitChar, Option.isSome_iff_exists,
    Bool.and_eq_true, decide_eq_true_eq, decide_eq_true_eq]
  have hzero : '0' ≤ c ↔ 48 ≤ c.toNat := Iff.rfl
  have hnine : c ≤ '9' ↔ c.toNat ≤ 57 := Iff.rfl
  rw [hzero, hnine]
  constructor
  · intro h
    exact ⟨c.toNat - 48, digitIn?_ten.mpr (by omega)⟩
  · rintro ⟨d, hd⟩
    have := digitIn?_ten.mp hd
    omega

/-- Digits are taken as far as they go. -/
theorem digits_append {values : List Nat} {rest : List Char} (hvalues : AreDigits values)
    (hrest : EndsDigits rest) :
    digits (digitChars values ++ rest) = (digitChars values, rest) := by
  obtain ⟨htake, hdrop⟩ := span_digits (allDigits?_digitChars hvalues) hrest
  rw [digits, isAsciiDigit_eq, htake, hdrop]

/-- The whole part of a number, which is zero or begins with another digit. -/
theorem wholePart?_append {values : List Nat} {rest : List Char} (hne : values ≠ [])
    (hvalues : AreDigits values) (hstart : values = [0] ∨ values.head? ≠ some 0)
    (hrest : EndsDigits rest) :
    wholePart? (digitChars values ++ rest) = some (digitChars values, rest) := by
  rcases hstart with hzero | hhead
  · rw [hzero]
    rfl
  · have hread := digits_append hvalues hrest
    obtain ⟨d, others, hcons⟩ := List.exists_cons_of_ne_nil hne
    subst hcons
    have hd : d.digitChar ≠ '0' := by
      have hall : ∀ d < 10, d.digitChar = '0' → d = 0 := by decide
      intro heq
      exact hhead (congrArg some (hall d (hvalues d List.mem_cons_self) heq))
    have hchars : digitChars (d :: others) = d.digitChar :: digitChars others := rfl
    rw [hchars, List.cons_append] at hread ⊢
    unfold wholePart?
    split
    · next heq => exact absurd (List.cons.inj heq).1 hd
    · rw [hread]

/-- The fraction of a number, and what follows it. -/
theorem fractionPart_append {values : List Nat} {rest : List Char} (hvalues : AreDigits values)
    (hrest : EndsDigits rest) (hpoint : ∀ tail, rest ≠ '.' :: tail) :
    fractionPart ((if values = [] then [] else '.' :: digitChars values) ++ rest) =
      (if values = [] then [] else '.' :: digitChars values, rest) := by
  by_cases hne : values = []
  · rw [if_pos hne, List.nil_append]
    unfold fractionPart
    split
    · next tail => exact absurd rfl (hpoint tail)
    · rfl
  · obtain ⟨d, others, hcons⟩ := List.exists_cons_of_ne_nil hne
    rw [if_neg hne, List.cons_append, fractionPart, digits_append hvalues hrest, hcons]
    rfl

/-- The exponent of a number, and what follows it. -/
theorem exponentPart_append {parts : NumberParts} {rest : List Char} (h : parts.Sound)
    (hrest : Follows rest) :
    exponentPart (parts.exponentChars ++ rest) = (parts.exponentChars, rest) := by
  rw [NumberParts.exponentChars]
  cases he : parts.exponent with
  | none =>
      obtain ⟨c, tail, heq, hc⟩ := hrest
      rw [heq]
      rcases hc with hc | hc <;>
        · rw [hc]
          rfl
  | some exponent =>
      obtain ⟨negative, values⟩ := exponent
      obtain ⟨hne, hvalues⟩ := h.exponent negative values he
      obtain ⟨d, others, hcons⟩ := List.exists_cons_of_ne_nil hne
      have hread := digits_append hvalues hrest.endsDigits
      have hchars : digitChars values = d.digitChar :: digitChars others := by
        rw [hcons]
        rfl
      rw [hchars] at hread
      simp only [hchars]
      cases negative <;>
        simp only [Bool.false_eq_true, if_true, if_false, List.cons_append, exponentPart,
          beq_self_eq_true, Bool.true_or] <;>
        rw [← List.cons_append, hread] <;>
        rfl

/-- What comes behind the whole part of a number does not go on with its digits. -/
theorem endsDigits_behind (parts : NumberParts) {rest : List Char} (hrest : Follows rest) :
    EndsDigits (parts.exponentChars ++ rest) ∧
      EndsDigits (parts.fractionChars ++ (parts.exponentChars ++ rest)) ∧
      ∀ tail, parts.exponentChars ++ rest ≠ '.' :: tail := by
  have hexponent : EndsDigits (parts.exponentChars ++ rest) := by
    rw [NumberParts.exponentChars]
    split
    · exact hrest.endsDigits
    · exact endsDigits_cons (by decide)
  refine ⟨hexponent, ?_, ?_⟩
  · rw [NumberParts.fractionChars]
    split
    · exact hexponent
    · exact endsDigits_cons (by decide)
  · intro tail
    rw [NumberParts.exponentChars]
    split
    · obtain ⟨c, others, heq, hc⟩ := hrest
      rw [heq]
      rcases hc with hc | hc <;> simp [hc]
    · simp

/-- **A number is read to its end**, as a whole number if it has neither a fraction nor an
exponent, and as a double otherwise. -/
theorem number_parts (negative : Bool) {parts : NumberParts} {rest : List Char} (h : parts.Sound)
    (hrest : Follows rest) {value : Json}
    (hint : parts.fraction = [] ∧ parts.exponent = none →
      ∃ i, readInteger 10 (minus negative ++ parts.chars) = .ok i ∧ value = .int i)
    (hfloat : ¬ (parts.fraction = [] ∧ parts.exponent = none) →
      ∃ x, readDecimal (minus negative ++ parts.chars) = .ok x ∧ value = .float x) :
    number (minus negative ++ (parts.chars ++ rest)) = .ok (value, rest) := by
  obtain ⟨hexponent, hfraction, hpoint⟩ := endsDigits_behind parts hrest
  have hwhole : wholePart? (parts.chars ++ rest) =
      some (digitChars parts.whole, parts.fractionChars ++ (parts.exponentChars ++ rest)) := by
    rw [NumberParts.chars, List.append_assoc, List.append_assoc]
    exact wholePart?_append h.full h.whole h.start hfraction
  have hbehind : fractionPart (parts.fractionChars ++ (parts.exponentChars ++ rest)) =
      (parts.fractionChars, parts.exponentChars ++ rest) :=
    fractionPart_append h.fraction hexponent hpoint
  have hlast := exponentPart_append h hrest
  have hkind : (parts.fractionChars.isEmpty && parts.exponentChars.isEmpty) =
      decide (parts.fraction = [] ∧ parts.exponent = none) := by
    rw [NumberParts.fractionChars, NumberParts.exponentChars]
    cases parts.fraction <;> cases parts.exponent <;> rfl
  obtain ⟨d, others, hcons⟩ := List.exists_cons_of_ne_nil h.full
  have hminus : ∀ tail, parts.chars ++ rest ≠ '-' :: tail := by
    have hall : ∀ d < 10, d.digitChar ≠ '-' := by decide
    intro tail heq
    rw [NumberParts.chars, hcons] at heq
    exact hall d (h.whole d (by simp [hcons])) (List.cons.inj heq).1
  have hwritten : digitChars parts.whole ++ parts.fractionChars ++ parts.exponentChars =
      parts.chars := by
    rw [NumberParts.chars, List.append_assoc]
  unfold number
  cases negative with
  | true =>
      simp only [minus_true, List.cons_append, List.nil_append, hwhole, hbehind, hlast, hkind,
        hwritten, decide_eq_true_eq] at hint hfloat ⊢
      split
      · next hwholeNumber =>
          obtain ⟨i, hread, rfl⟩ := hint hwholeNumber
          rw [hread]
      · next hdecimal =>
          obtain ⟨x, hread, rfl⟩ := hfloat hdecimal
          rw [hread]
  | false =>
      rw [minus_false, List.nil_append] at hint hfloat ⊢
      generalize parts.chars ++ rest = input at hwhole hminus ⊢
      simp only [List.nil_append, hwhole, hbehind, hlast, hkind, hwritten, decide_eq_true_eq]
      split
      · next hwholeNumber =>
          obtain ⟨i, hread, rfl⟩ := hint hwholeNumber
          rw [hread]
      · next hdecimal =>
          obtain ⟨x, hread, rfl⟩ := hfloat hdecimal
          rw [hread]

/-! ### Scalars -/

/-- A character that begins a word or a number. -/
def IsBare (c : Char) : Prop :=
  c ∉ ['\x22', '\x7b', '[', ']', '\uFEFF'] ∧ isBlank c = false

instance (c : Char) : Decidable (IsBare c) :=
  inferInstanceAs (Decidable (_ ∧ _))

/-- A figure is printed as it is. -/
theorem isBare_digit {d : Nat} (h : d < 10) : IsBare d.digitChar := by
  have hall : ∀ d < 10, IsBare d.digitChar := by decide
  exact hall d h

/-- A text that begins a word or a number. -/
def BeginsBare (text : List Char) : Prop :=
  ∃ c tail, text = c :: tail ∧ IsBare c

/-- The text of a word or a number, from which its value is read back. -/
def ScalarText (text : List Char) (value : Json) : Prop :=
  BeginsBare text ∧ ∀ rest, Follows rest → scalar (text ++ rest) = .ok (value, rest)

/-- A word is read as what it stands for. -/
theorem scalar_word (word : List Char) (value : Json) (h : (word, value) ∈ words) :
    ScalarText word value := by
  simp only [words, List.mem_cons, List.not_mem_nil, or_false, Prod.mk.injEq] at h
  rcases h with ⟨rfl, rfl⟩ | ⟨rfl, rfl⟩ | ⟨rfl, rfl⟩ | ⟨rfl, rfl⟩ | ⟨rfl, rfl⟩ | ⟨rfl, rfl⟩ <;>
    exact ⟨⟨_, _, rfl, by decide⟩, fun _ _ => rfl⟩

/-- No word begins like a number. -/
theorem scalar_parts (negative : Bool) {parts : NumberParts} (h : parts.Sound) (rest : List Char) :
    BeginsBare (minus negative ++ parts.chars) ∧
      scalar (minus negative ++ (parts.chars ++ rest)) =
        number (minus negative ++ (parts.chars ++ rest)) := by
  obtain ⟨d, others, hcons⟩ := List.exists_cons_of_ne_nil h.full
  have hd : d < 10 := h.whole d (by simp [hcons])
  have hchars : parts.chars =
      d.digitChar :: (digitChars others ++ (parts.fractionChars ++ parts.exponentChars)) := by
    rw [NumberParts.chars, hcons]
    rfl
  have hall : ∀ d < 10, ∀ tail, words.findSome? (fun word =>
      (afterStart? word.1 (d.digitChar :: tail)).map fun rest => (word.2, rest)) = none ∧
    words.findSome? (fun word =>
      (afterStart? word.1 ('-' :: d.digitChar :: tail)).map fun rest => (word.2, rest)) = none := by
    intro d hd tail
    interval_cases d <;> exact ⟨rfl, rfl⟩
  cases negative with
  | true =>
      rw [hchars]
      refine ⟨⟨'-', _, rfl, by decide⟩, ?_⟩
      rw [scalar, minus_true, List.cons_append, List.nil_append, List.cons_append, (hall d hd _).2]
  | false =>
      rw [hchars]
      refine ⟨⟨_, _, rfl, isBare_digit hd⟩, ?_⟩
      rw [scalar, minus_false, List.nil_append, List.cons_append, (hall d hd _).1]

/-- **Whole numbers are read back.** -/
theorem scalar_int {i : Int} (h : i.natAbs < tenTo digitLimit) :
    ScalarText (toString i).toList (.int i) := by
  obtain ⟨parts, hsound, hfraction, hexponent, hchars⟩ := exists_parts_int i
  rw [toList_toString_int, ← hchars]
  refine ⟨(scalar_parts _ hsound []).1, ?_⟩
  intro rest hrest
  rw [List.append_assoc, (scalar_parts _ hsound rest).2]
  refine number_parts _ hsound hrest ?_ fun hdecimal => absurd ⟨hfraction, hexponent⟩ hdecimal
  intro _
  exact ⟨i, by rw [hchars, readInteger_toString h], rfl⟩

/-- **Doubles are read back.** -/
theorem scalar_float {x : Double} (h : x.IsProper) :
    ScalarText (x.render Double.jsonLayout).toList (.float x) := by
  cases x with
  | notNumber => exact scalar_word "NaN".toList _ (by simp [words])
  | infinite negative =>
      cases negative with
      | true => exact scalar_word "-Infinity".toList _ (by simp [words])
      | false => exact scalar_word "Infinity".toList _ (by simp [words])
  | finite negative significand exponent =>
      obtain ⟨parts, hsound, hmark, htext, hread⟩ := exists_render negative h
      rw [htext]
      refine ⟨(scalar_parts negative hsound []).1, ?_⟩
      intro rest hrest
      rw [List.append_assoc, (scalar_parts negative hsound rest).2]
      refine number_parts negative hsound hrest ?_ fun _ => ⟨_, hread, rfl⟩
      rintro ⟨hfraction, hexponent⟩
      rcases hmark with hne | hne
      · exact absurd hfraction hne
      · exact absurd hexponent hne

end ContentCatalog.Json
