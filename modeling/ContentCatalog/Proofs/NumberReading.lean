import ContentCatalog.Number.Reading
import Mathlib.Data.List.TakeWhile

/-!
# Texts that are read as numbers

The readers of numbers accept digits of every script.  What they see of such a digit
is the digit of ASCII with the same value, so a text of digits is always read, and
its number is the one that the values of its digits write.

* `numeral_of_isDigit`, `digitIn?_of_isDigit` : what the readers see of a digit;
* `signed_numberBody` : a sign is told apart from the digits behind it;
* `readInteger_of_digits` : whole numbers;
* `readFraction?_point`, `readFraction?_whole`, `readDecimal_of_fraction` : decimal
  fractions.
-/

namespace ContentCatalog.Number

open Text

/-! ### Digits -/

/-- No digit is a blank: the scripts' digits lie away from all white space. -/
theorem isSpace_of_isDigit {c : Char} (h : isDigit c = true) (hc : 128 ≤ c.toNat) :
    isSpace c = false := by
  have haway : ∀ first ∈ digitZeros, ∀ d < 10, 128 ≤ first + d →
      ¬ (first + d = 0x85 ∨ first + d = 0xA0 ∨ first + d = 0x1680 ∨
        (0x2000 ≤ first + d ∧ first + d ≤ 0x200A) ∨ first + d = 0x2028 ∨ first + d = 0x2029 ∨
        first + d = 0x202F ∨ first + d = 0x205F ∨ first + d = 0x3000) := by
    decide
  rw [isDigit, digitValue?] at h
  simp only [show ¬ c.toNat < 128 by omega, if_false, Option.isSome_map] at h
  obtain ⟨first, hfind⟩ := Option.isSome_iff_exists.mp h
  have hm := List.mem_of_find?_eq_some hfind
  have hrange := List.find?_some hfind
  simp only [Bool.and_eq_true, decide_eq_true_eq] at hrange
  have hat := haway first hm (c.toNat - first) (by omega)
  rw [Nat.add_sub_cancel' hrange.1] at hat
  simp only [isSpace, Bool.or_eq_false_iff, Bool.and_eq_false_iff, decide_eq_false_iff_not,
    beq_eq_false_iff_ne]
  have := hat hc
  omega

/-- The value of a digit of any script is less than ten. -/
theorem digitValue?_lt {c : Char} {d : Nat} (h : digitValue? c = some d) : d < 10 := by
  by_cases hc : c.toNat < 128
  · rw [digitValue?_ascii hc] at h
    split at h
    · next hr =>
        simp only [Bool.and_eq_true, decide_eq_true_eq] at hr
        have := Option.some.inj h
        omega
    · cases h
  · simp only [digitValue?, if_neg hc] at h
    obtain ⟨first, hfind, heq⟩ := Option.map_eq_some_iff.mp h
    have hrange := List.find?_some hfind
    simp only [Bool.and_eq_true, decide_eq_true_eq] at hrange
    omega

/-- A figure of ASCII has the code point of its digit. -/
theorem toNat_ofNat_digit {d : Nat} (h : d < 10) : (Char.ofNat (48 + d)).toNat = 48 + d := by
  have hall : ∀ d < 10, (Char.ofNat (48 + d)).toNat = 48 + d := by decide
  exact hall d h

/-- **A digit of any script** is seen as the digit of ASCII with its value. -/
theorem numeral_of_isDigit {c : Char} {d : Nat} (h : digitValue? c = some d) :
    numeral c = Char.ofNat (48 + d) := by
  by_cases hc : c.toNat < 128
  · rw [digitValue?_ascii hc] at h
    split at h
    · next hr =>
        simp only [Bool.and_eq_true, decide_eq_true_eq] at hr
        have hd := Option.some.inj h
        rw [numeral, if_pos (by omega), show 48 + d = c.toNat by omega, Char.ofNat_toNat]
    · cases h
  · have hspace : isSpace c = false :=
      isSpace_of_isDigit (by rw [isDigit, h]; rfl) (by omega)
    rw [numeral, if_neg (by omega), hspace, h]
    rfl

/-- The decimal digits of ASCII, by their code points. -/
theorem digitIn?_ten {c : Char} {d : Nat} :
    digitIn? 10 c = some d ↔ c.toNat = 48 + d ∧ d < 10 := by
  by_cases hr : 48 ≤ c.toNat ∧ c.toNat ≤ 57
  · have hvalue : digitIn? 10 c = some (c.toNat - 48) := by
      simp only [digitIn?, hr, decide_true, Bool.and_self, if_true]
      rw [if_pos (by omega)]
    rw [hvalue, Option.some.injEq]
    omega
  · have hnone : digitIn? 10 c = none := by
      simp only [digitIn?, Bool.and_eq_true, decide_eq_true_eq, if_neg hr]
      rw [if_neg (by split <;> [omega; (split <;> omega)])]
    rw [hnone]
    constructor
    · intro h
      cases h
    · omega

/-- What is seen of a digit is a digit with its value. -/
theorem digitIn?_of_isDigit {c : Char} {d : Nat} (h : digitValue? c = some d) :
    digitIn? 10 (numeral c) = some d := by
  have hd := digitValue?_lt h
  rw [numeral_of_isDigit h, digitIn?_ten]
  exact ⟨toNat_ofNat_digit hd, hd⟩

/-! ### Texts of digits -/

/-- The values of the digits of a text. -/
def digitValues (text : List Char) : List Nat :=
  text.filterMap digitValue?

/-- The digits of two texts are those of both. -/
theorem digitValues_append (text other : List Char) :
    digitValues (text ++ other) = digitValues text ++ digitValues other :=
  List.filterMap_append

/-- A text of digits is read digit by digit. -/
theorem mapM_digitValue? {text : List Char} (h : ∀ c ∈ text, isDigit c = true) :
    text.mapM digitValue? = some (digitValues text) := by
  induction text with
  | nil => rfl
  | cons c text ih =>
      obtain ⟨hc, htext⟩ := List.forall_mem_cons.mp h
      obtain ⟨d, hd⟩ := Option.isSome_iff_exists.mp hc
      have hvalues : digitValues (c :: text) = d :: digitValues text :=
        List.filterMap_cons_some hd
      rw [List.mapM_cons, hd, ih htext, hvalues]
      rfl

/-- What the readers see of a text of digits. -/
theorem allDigits?_of_mapM {text : List Char} {values : List Nat}
    (h : text.mapM digitValue? = some values) :
    allDigits? 10 (text.map numeral) = some values := by
  rw [allDigits?]
  induction text generalizing values with
  | nil => exact h
  | cons c text ih =>
      rw [List.mapM_cons] at h
      obtain ⟨d, hd, h⟩ := Option.bind_eq_some_iff.mp h
      obtain ⟨others, ho, h⟩ := Option.bind_eq_some_iff.mp h
      rw [List.map_cons, List.mapM_cons, digitIn?_of_isDigit hd, ih ho]
      exact h

/-- Nothing is cut off a text without characters of the class. -/
theorem trim_eq_self {p : Char → Bool} {text : List Char} (h : ∀ c ∈ text, p c = false) :
    trim p text = text := by
  have hleft : trimLeft p text = text := by
    cases text with
    | nil => rfl
    | cons c rest => rw [trimLeft, List.dropWhile_cons_of_neg (by simp [h c])]
  rw [trim, hleft]
  rcases List.eq_nil_or_concat text with hnil | ⟨front, last, heq⟩
  · rw [hnil]
    rfl
  · rw [heq, List.concat_eq_append, trimRight_append_single]
    exact h last (by simp [heq])

/-- The text as the readers see it begins and ends with no blank. -/
theorem numberBody_eq {text : List Char} (h : ∀ c ∈ text, isNumberBlank (numeral c) = false) :
    numberBody text = text.map numeral := by
  rw [numberBody, trim_eq_self]
  intro c hc
  obtain ⟨other, ho, heq⟩ := List.mem_map.mp hc
  rw [← heq]
  exact h other ho

/-- The digits of ASCII are neither blanks nor signs nor points. -/
theorem digit_facts {c : Char} {d : Nat} (h : digitIn? 10 c = some d) :
    isNumberBlank c = false ∧ c ≠ '-' ∧ c ≠ '+' ∧ c ≠ '.' := by
  obtain ⟨hc, hd⟩ := digitIn?_ten.mp h
  have hne : ∀ other : Char, other.toNat < 48 → c ≠ other := by
    intro other ho heq
    rw [heq] at hc
    omega
  refine ⟨?_, hne _ (by decide), hne _ (by decide), hne _ (by decide)⟩
  have hblank : c ≠ ' ' := hne _ (by decide)
  simp only [isNumberBlank, Bool.or_eq_false_iff, beq_eq_false_iff_ne, Bool.and_eq_false_iff,
    decide_eq_false_iff_not]
  exact ⟨hblank, by omega⟩

/-- A minus sign, or none. -/
def minus (negative : Bool) : List Char :=
  if negative then ['-'] else []

@[simp] theorem minus_true : minus true = ['-'] := rfl

@[simp] theorem minus_false : minus false = [] := rfl

/-- A sign is told apart from what begins otherwise. -/
theorem signed_minus {negative : Bool} {body : List Char}
    (h : ∀ c rest, body = c :: rest → c ≠ '-' ∧ c ≠ '+') :
    signed (minus negative ++ body) = (negative, body) := by
  cases negative with
  | true => rfl
  | false =>
      cases body with
      | nil => rfl
      | cons c rest =>
          obtain ⟨hminus, hplus⟩ := h c rest rfl
          unfold signed
          split
          · next heq => exact absurd (List.cons.inj heq).1 hminus
          · next heq => exact absurd (List.cons.inj heq).1 hplus
          · rfl

/-- A number that begins with a digit is told apart from its sign. -/
theorem signed_numberBody (negative : Bool) {body : List Char}
    (hclean : ∀ c ∈ body, isNumberBlank (numeral c) = false)
    (hfirst : ∀ c rest, body.map numeral = c :: rest → ∃ d, digitIn? 10 c = some d) :
    signed (numberBody (minus negative ++ body)) = (negative, body.map numeral) := by
  have hall : ∀ c ∈ minus negative ++ body, isNumberBlank (numeral c) = false := by
    intro c hc
    rcases List.mem_append.mp hc with hc | hc
    · cases negative with
      | true =>
          rw [List.mem_singleton.mp hc]
          decide
      | false => cases hc
    · exact hclean c hc
  have hminus : (minus negative).map numeral = minus negative := by
    cases negative <;> decide
  rw [numberBody_eq hall, List.map_append, hminus, signed_minus]
  intro c rest heq
  obtain ⟨d, hd⟩ := hfirst c rest heq
  exact ⟨(digit_facts hd).2.1, (digit_facts hd).2.2.1⟩

/-- Digits are read from the first one on. -/
theorem allDigits?_cons {c : Char} {rest : List Char} {values : List Nat}
    (h : allDigits? 10 (c :: rest) = some values) :
    ∃ d others, values = d :: others ∧ digitIn? 10 c = some d ∧
      allDigits? 10 rest = some others := by
  rw [allDigits?, List.mapM_cons] at h
  obtain ⟨d, hd, h⟩ := Option.bind_eq_some_iff.mp h
  obtain ⟨others, ho, h⟩ := Option.bind_eq_some_iff.mp h
  exact ⟨d, others, (Option.some.inj h).symm, hd, ho⟩

/-- In a text of digits every character is one. -/
theorem allDigits?_mem {text : List Char} {values : List Nat}
    (h : allDigits? 10 text = some values) {c : Char} (hc : c ∈ text) :
    ∃ d, digitIn? 10 c = some d := by
  induction text generalizing values with
  | nil => cases hc
  | cons first text ih =>
      obtain ⟨d, others, -, hd, ho⟩ := allDigits?_cons h
      rcases List.mem_cons.mp hc with heq | hc
      · exact ⟨d, heq ▸ hd⟩
      · exact ih ho hc

/-- Two texts of digits are read as one. -/
theorem allDigits?_append {text other : List Char} {values others : List Nat}
    (h : allDigits? 10 text = some values) (ho : allDigits? 10 other = some others) :
    allDigits? 10 (text ++ other) = some (values ++ others) := by
  induction text generalizing values with
  | nil =>
      have hnil : values = [] := (Option.some.inj h).symm
      rw [hnil]
      exact ho
  | cons c text ih =>
      obtain ⟨d, rest, heq, hd, hr⟩ := allDigits?_cons h
      rw [List.cons_append, allDigits?, List.mapM_cons, hd, ← allDigits?, ih hr, heq]
      rfl

/-! ### Whole numbers -/

/-- A number with its sign. -/
def signedValue (negative : Bool) (size : Nat) : Int :=
  if negative then -(size : Int) else size

/-- **A text of digits is read as a whole number** unless it has too many of them. -/
theorem readInteger_of_digits (negative : Bool) {body : List Char} {values : List Nat}
    (hne : body ≠ []) (h : allDigits? 10 (body.map numeral) = some values) :
    readInteger 10 (minus negative ++ body) =
      if digitLimit < body.length then .error (.tooManyDigits body.length)
      else .ok (signedValue negative (wholeOfDigits 10 values)) := by
  obtain ⟨c, rest, hbody⟩ := List.exists_cons_of_ne_nil hne
  have hsigned : signed (numberBody (minus negative ++ body)) = (negative, body.map numeral) := by
    refine signed_numberBody negative ?_ ?_
    · intro c hc
      obtain ⟨d, hd⟩ := allDigits?_mem h (List.mem_map_of_mem hc)
      exact (digit_facts hd).1
    · intro first others heq
      rw [heq] at h
      obtain ⟨d, -, -, hd, -⟩ := allDigits?_cons h
      exact ⟨d, hd⟩
  have hmark : baseMark 10 (body.map numeral) = body.map numeral := by
    unfold baseMark
    split <;> rfl
  have hrun : ((body.map numeral).takeWhile fun c => (digitIn? 10 c).isSome).length =
      body.length := by
    rw [List.takeWhile_eq_self_iff.mpr, List.length_map]
    intro c hc
    obtain ⟨d, hd⟩ := allDigits?_mem h hc
    rw [hd]
    rfl
  rw [readInteger, hsigned]
  simp only [hmark, hrun, true_and, h]
  split
  · rfl
  · rw [hbody, List.map_cons] at h
    obtain ⟨d, others, heq, -, -⟩ := allDigits?_cons h
    rw [heq]
    rfl

/-! ### Decimal fractions -/

/-- The text does not go on with a digit. -/
def EndsDigits (rest : List Char) : Prop :=
  ∀ c others, rest = c :: others → digitIn? 10 c = none

theorem endsDigits_nil : EndsDigits [] := by
  intro c others h
  cases h

theorem endsDigits_cons {c : Char} {rest : List Char} (h : digitIn? 10 c = none) :
    EndsDigits (c :: rest) := by
  intro other others heq
  rwa [(List.cons.inj heq).1] at h

/-- Digits are taken as far as they go. -/
theorem span_digits {text rest : List Char} {values : List Nat}
    (h : allDigits? 10 text = some values) (hrest : EndsDigits rest) :
    (text ++ rest).takeWhile isAsciiDigitChar = text ∧
      (text ++ rest).dropWhile isAsciiDigitChar = rest := by
  have hall : ∀ c ∈ text, isAsciiDigitChar c = true := by
    intro c hc
    obtain ⟨d, hd⟩ := allDigits?_mem h hc
    rw [isAsciiDigitChar, hd]
    rfl
  rw [List.takeWhile_append_of_pos hall, List.dropWhile_append_of_pos hall]
  cases rest with
  | nil => simp
  | cons c others =>
      have hc : ¬ isAsciiDigitChar c = true := by
        rw [isAsciiDigitChar, hrest c others rfl]
        exact Bool.false_ne_true
      rw [List.takeWhile_cons_of_neg hc, List.dropWhile_cons_of_neg hc, List.append_nil]
      exact ⟨rfl, rfl⟩

/-- What the digits of a number amount to, with so many of them behind the point. -/
def decimalOf (negative : Bool) (values : List Nat) (behind : Nat) (exponent : Int) : Double :=
  ofDecimal negative (wholeOfDigits 10 values) (values.dropWhile (· == 0)).length
    (exponent - behind)

/-- A number with a point. -/
theorem readFraction?_point (negative : Bool) {whole fraction tail : List Char}
    {values others : List Nat} {exponent : Int} (hne : whole ≠ [])
    (hw : allDigits? 10 whole = some values) (hf : allDigits? 10 fraction = some others)
    (htail : EndsDigits tail) (he : readExponent? tail = some exponent) :
    readFraction? negative (whole ++ '.' :: (fraction ++ tail)) =
      some (decimalOf negative (values ++ others) fraction.length exponent) := by
  have hpoint : EndsDigits ('.' :: (fraction ++ tail)) := endsDigits_cons (by decide)
  obtain ⟨htake, hdrop⟩ := span_digits hw hpoint
  obtain ⟨hbehind, hafter⟩ := span_digits hf htail
  have hfull : (whole ++ fraction).isEmpty = false :=
    List.isEmpty_eq_false_iff.mpr (List.append_ne_nil_of_left_ne_nil hne fraction)
  rw [readFraction?, htake, hdrop]
  simp only [hbehind, hafter, hfull, he, allDigits?_append hw hf]
  rfl

/-- A number without a point. -/
theorem readFraction?_whole (negative : Bool) {whole tail : List Char} {values : List Nat}
    {exponent : Int} (hne : whole ≠ []) (hw : allDigits? 10 whole = some values)
    (htail : EndsDigits tail) (hpoint : ∀ rest, tail ≠ '.' :: rest)
    (he : readExponent? tail = some exponent) :
    readFraction? negative (whole ++ tail) = some (decimalOf negative values 0 exponent) := by
  obtain ⟨htake, hdrop⟩ := span_digits hw htail
  have hfull : whole.isEmpty = false := List.isEmpty_eq_false_iff.mpr hne
  rw [readFraction?, htake, hdrop]
  cases tail with
  | nil =>
      simp only [List.append_nil, hfull, he, hw]
      rfl
  | cons c rest =>
      simp only [List.append_nil, hfull, he, hw]
      rfl

/-- A text that begins with a digit is no word for infinity or for what is not a
number. -/
theorem readDecimal_of_fraction (negative : Bool) {body : List Char} {x : Double}
    (hclean : ∀ c ∈ body, isNumberBlank (numeral c) = false)
    (hfirst : ∃ c rest d, body.map numeral = c :: rest ∧ digitIn? 10 c = some d)
    (h : readFraction? negative (body.map numeral) = some x) :
    readDecimal (minus negative ++ body) = .ok x := by
  obtain ⟨c, rest, d, hbody, hd⟩ := hfirst
  have hsigned : signed (numberBody (minus negative ++ body)) = (negative, body.map numeral) := by
    refine signed_numberBody negative hclean ?_
    intro first others heq
    rw [hbody] at heq
    rw [← (List.cons.inj heq).1]
    exact ⟨d, hd⟩
  have hword : ∀ (word : String) (first : Char) (others : List Char),
      word.toList = first :: others → 58 ≤ first.toNat →
        (String.ofList ((body.map numeral).map lowerChar) == word) = false := by
    intro word first others hword hletter
    rw [beq_eq_false_iff_ne]
    intro heq
    have hlist := congrArg String.toList heq
    rw [String.toList_ofList, hbody, List.map_cons, hword] at hlist
    obtain ⟨hcode, hlt⟩ := digitIn?_ten.mp hd
    have hlower : lowerChar c = c := by
      rw [lowerChar_ascii (by omega), if_neg]
      simp only [Bool.and_eq_true, decide_eq_true_eq]
      omega
    have hsame : c = first := hlower ▸ (List.cons.inj hlist).1
    rw [← hsame] at hletter
    omega
  rw [readDecimal, hsigned]
  simp only [hword "inf" 'i' _ rfl (by decide), hword "infinity" 'i' _ rfl (by decide),
    hword "nan" 'n' _ rfl (by decide), h, Bool.or_self, Bool.false_eq_true, if_false]

end ContentCatalog.Number
