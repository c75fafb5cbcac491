import ContentCatalog.Proofs.DecimalDigits
import ContentCatalog.Json.Printer

/-!
# Printed doubles

The text of a double has a whole part, a fraction and an exponent, of which the last
two may be missing.  However the digits are laid out, these parts write the same
number, so the text is read as the double that it was printed for.

* `NumberParts.readDecimal_chars` : a number with such parts is read;
* `exists_laidOut` : the parts of laid out digits, and the number that they write;
* `exists_render` : a double is read back from its text.
-/

namespace ContentCatalog.Number

open Double (tenTo_eq ten_zpow_pos Proper Rounds)

/-! ### Digits as characters -/

/-- The characters of digits. -/
def digitChars (digits : List Nat) : List Char :=
  digits.map Nat.digitChar

theorem length_digitChars (digits : List Nat) : (digitChars digits).length = digits.length :=
  List.length_map _

/-- The digits are those of decimal numbers. -/
def AreDigits (digits : List Nat) : Prop :=
  ∀ d ∈ digits, d < 10

/-- Figures are read as their digits. -/
theorem allDigits?_digitChars {digits : List Nat} (h : AreDigits digits) :
    allDigits? 10 (digitChars digits) = some digits := by
  induction digits with
  | nil => rfl
  | cons d digits ih =>
      obtain ⟨hd, hrest⟩ := List.forall_mem_cons.mp h
      have hothers := ih hrest
      rw [allDigits?] at hothers ⊢
      rw [digitChars, List.map_cons, List.mapM_cons, digitIn?_digitChar hd, ← digitChars, hothers]
      rfl

/-- A character that is read as a digit is its figure. -/
theorem eq_digitChar {c : Char} {d : Nat} (h : digitIn? 10 c = some d) : c = d.digitChar := by
  obtain ⟨hc, hd⟩ := digitIn?_ten.mp h
  have hall : ∀ d < 10, d.digitChar.toNat = 48 + d := by decide
  exact Char.toNat_inj.mp (hc.trans (hall d hd).symm)

/-- A text that is read as digits is made of their figures. -/
theorem eq_digitChars {text : List Char} {values : List Nat}
    (h : allDigits? 10 text = some values) : text = digitChars values := by
  induction text generalizing values with
  | nil =>
      have hnil : values = [] := (Option.some.inj h).symm
      rw [hnil]
      rfl
  | cons c text ih =>
      obtain ⟨d, others, heq, hd, ho⟩ := allDigits?_cons h
      rw [heq, eq_digitChar hd, ih ho]
      rfl

/-- The digits that a whole number is printed with. -/
theorem exists_digits (n : Nat) :
    ∃ digits, Nat.toDigits 10 n = digitChars digits ∧ AreDigits digits ∧ digits ≠ [] ∧
      wholeOfDigits 10 digits = n ∧ (0 < n → digits.head? ≠ some 0) := by
  obtain ⟨values, hv, hvalue⟩ := allDigits?_toDigits n
  have htext := eq_digitChars hv
  refine ⟨values, htext, allDigits?_lt hv, ?_, hvalue, ?_⟩
  · intro hnil
    rw [hnil] at htext
    exact absurd htext Nat.toDigits_ne_nil
  · intro hn hhead
    refine head?_toDigits hn ?_
    rw [htext, digitChars, List.head?_map, hhead]
    rfl

/-! ### The parts of a number -/

/-- The parts of an unsigned number, by their digits. -/
structure NumberParts where
  whole : List Nat
  /-- The digits behind the point; there is no point without any. -/
  fraction : List Nat
  /-- The sign of the exponent and its digits. -/
  exponent : Option (Bool × List Nat)

namespace NumberParts

/-- The fraction as it is written. -/
def fractionChars (parts : NumberParts) : List Char :=
  if parts.fraction = [] then [] else '.' :: digitChars parts.fraction

/-- The exponent as it is written. -/
def exponentChars (parts : NumberParts) : List Char :=
  match parts.exponent with
  | none => []
  | some (negative, digits) => 'e' :: (if negative then '-' else '+') :: digitChars digits

/-- The number as it is written. -/
def chars (parts : NumberParts) : List Char :=
  digitChars parts.whole ++ (parts.fractionChars ++ parts.exponentChars)

/-- The value of the exponent. -/
def exponentValue (parts : NumberParts) : Int :=
  match parts.exponent with
  | none => 0
  | some (negative, digits) => signedValue negative (wholeOfDigits 10 digits)

/-- All digits that stand around the point. -/
def digits (parts : NumberParts) : List Nat :=
  parts.whole ++ parts.fraction

/-- The value of the number. -/
def value (parts : NumberParts) : ℚ :=
  wholeOfDigits 10 parts.digits * 10 ^ (parts.exponentValue - parts.fraction.length)

/-- Without an exponent a number counts by the places behind its point. -/
theorem value_plain (whole fraction : List Nat) :
    value ⟨whole, fraction, none⟩ =
      wholeOfDigits 10 (whole ++ fraction) * 10 ^ (-(fraction.length : Int)) := by
  rw [value, exponentValue, zero_sub]
  rfl

/-- With one the exponent is added to them. -/
theorem value_exponent (whole fraction exponent : List Nat) (negative : Bool) :
    value ⟨whole, fraction, some (negative, exponent)⟩ =
      wholeOfDigits 10 (whole ++ fraction) *
        10 ^ (signedValue negative (wholeOfDigits 10 exponent) - (fraction.length : Int)) := rfl

/-- The parts are as documents have them: the whole part does not begin with a zero that
could be left out. -/
structure Sound (parts : NumberParts) : Prop where
  full : parts.whole ≠ []
  whole : AreDigits parts.whole
  fraction : AreDigits parts.fraction
  exponent : ∀ negative digits, parts.exponent = some (negative, digits) →
    digits ≠ [] ∧ AreDigits digits
  start : parts.whole = [0] ∨ parts.whole.head? ≠ some 0

variable {parts : NumberParts}

/-- The exponent is read as its value. -/
theorem readExponent?_exponentChars (h : parts.Sound) :
    readExponent? parts.exponentChars = some parts.exponentValue := by
  rw [exponentChars, exponentValue]
  cases he : parts.exponent with
  | none => rfl
  | some exponent =>
      obtain ⟨negative, digits⟩ := exponent
      obtain ⟨hne, hdigits⟩ := h.exponent negative digits he
      obtain ⟨d, others, hcons⟩ := List.exists_cons_of_ne_nil hne
      have hall := allDigits?_digitChars hdigits
      have hsigned : signed ((if negative then '-' else '+') :: digitChars digits) =
          (negative, digitChars digits) := by
        cases negative <;> rfl
      simp only [readExponent?, beq_self_eq_true, Bool.true_or, if_true, hsigned, hall]
      rw [hcons]
      rfl

/-- And its text ends the digits in front of it. -/
theorem endsDigits_exponentChars (parts : NumberParts) : EndsDigits parts.exponentChars := by
  rw [exponentChars]
  split
  · exact endsDigits_nil
  · exact endsDigits_cons (by decide)

/-- The number is read as the double of its digits and its exponent. -/
theorem readFraction?_chars (negative : Bool) (h : parts.Sound) :
    readFraction? negative parts.chars =
      some (decimalOf negative parts.digits parts.fraction.length parts.exponentValue) := by
  have hwhole := allDigits?_digitChars h.whole
  have hne : digitChars parts.whole ≠ [] := by simpa [digitChars] using h.full
  have hends := endsDigits_exponentChars parts
  have hread := readExponent?_exponentChars h
  rw [chars, fractionChars, digits]
  split
  · next hnone =>
      have hpoint : ∀ rest, parts.exponentChars ≠ '.' :: rest := by
        intro rest
        rw [exponentChars]
        split <;> simp
      rw [List.nil_append, readFraction?_whole negative hne hwhole hends hpoint hread, hnone,
        List.append_nil]
      rfl
  · have hfraction := allDigits?_digitChars h.fraction
    rw [List.cons_append, readFraction?_point negative hne hwhole hfraction hends hread,
      length_digitChars]

/-- The characters of numbers: only an exponent has a sign. -/
theorem mem_chars (h : parts.Sound) :
    ∀ c ∈ parts.chars, (∃ d < 10, c = d.digitChar) ∨ c = '.' ∨
      (parts.exponent ≠ none ∧ c ∈ ['e', '-', '+']) := by
  have hdigits : ∀ digits, AreDigits digits → ∀ c ∈ digitChars digits, ∃ d < 10, c = d.digitChar := by
    intro digits hd c hc
    obtain ⟨d, hmem, heq⟩ := List.mem_map.mp hc
    exact ⟨d, hd d hmem, heq.symm⟩
  intro c hc
  rw [chars, List.mem_append, List.mem_append] at hc
  rcases hc with hc | hc | hc
  · exact .inl (hdigits _ h.whole c hc)
  · rw [fractionChars] at hc
    split at hc
    · cases hc
    · rcases List.mem_cons.mp hc with heq | hc
      · exact .inr (.inl heq)
      · exact .inl (hdigits _ h.fraction c hc)
  · rw [exponentChars] at hc
    split at hc
    · cases hc
    · next negative digits he =>
        have hne : parts.exponent ≠ none := by simp [he]
        rcases List.mem_cons.mp hc with heq | hc
        · exact .inr (.inr ⟨hne, by simp [heq]⟩)
        · rcases List.mem_cons.mp hc with heq | hc
          · exact .inr (.inr ⟨hne, by rw [heq]; cases negative <;> simp⟩)
          · exact .inl (hdigits _ (h.exponent negative digits he).2 c hc)

/-- The characters of numbers are seen as they are. -/
theorem isPlain_of_mem (h : parts.Sound) : ∀ c ∈ parts.chars, IsPlain c := by
  intro c hc
  rcases mem_chars h c hc with ⟨d, hd, rfl⟩ | rfl | ⟨-, hmark⟩
  · exact isPlain_digit (digitIn?_digitChar hd)
  · exact ⟨rfl, rfl⟩
  · simp only [List.mem_cons, List.not_mem_nil, or_false] at hmark
    rcases hmark with rfl | rfl | rfl <;> exact ⟨rfl, rfl⟩

/-- **A number with sound parts is read.** -/
theorem readDecimal_chars (negative : Bool) (h : parts.Sound) :
    readDecimal (minus negative ++ parts.chars) =
      .ok (decimalOf negative parts.digits parts.fraction.length parts.exponentValue) := by
  have hplain := isPlain_of_mem h
  have hseen := map_numeral hplain
  obtain ⟨d, others, hcons⟩ := List.exists_cons_of_ne_nil h.full
  refine readDecimal_of_fraction negative ?_ ?_ ?_
  · intro c hc
    rw [(hplain c hc).1]
    exact (hplain c hc).2
  · have hchars : parts.chars = d.digitChar ::
        (digitChars others ++ (parts.fractionChars ++ parts.exponentChars)) := by
      rw [chars, hcons]
      rfl
    exact ⟨_, _, d, hseen.trans hchars, digitIn?_digitChar (h.whole d (by simp [hcons]))⟩
  · rw [hseen]
    exact readFraction?_chars negative h

end NumberParts

/-! ### Digits laid out -/

/-- A zero in front makes no difference. -/
theorem wholeOfDigits_zero_cons (digits : List Nat) :
    wholeOfDigits 10 (0 :: digits) = wholeOfDigits 10 digits := by
  rw [wholeOfDigits, List.foldl_cons, Nat.zero_mul]
  rfl

theorem wholeOfDigits_zeros (count : Nat) (digits : List Nat) :
    wholeOfDigits 10 (List.replicate count 0 ++ digits) = wholeOfDigits 10 digits := by
  rw [wholeOfDigits_append, wholeOfDigits_replicate_zero, Nat.zero_mul, Nat.zero_add]

theorem areDigits_zeros (count : Nat) : AreDigits (List.replicate count 0) := by
  intro d hd
  rw [List.eq_of_mem_replicate hd]
  decide

/-- Two runs of digits are one. -/
theorem areDigits_append {digits others : List Nat} (h : AreDigits digits) (ho : AreDigits others) :
    AreDigits (digits ++ others) := by
  intro d hd
  rcases List.mem_append.mp hd with hd | hd
  · exact h d hd
  · exact ho d hd

theorem digitChars_append (digits others : List Nat) :
    digitChars (digits ++ others) = digitChars digits ++ digitChars others :=
  List.map_append

theorem digitChars_zeros (count : Nat) :
    digitChars (List.replicate count 0) = List.replicate count '0' :=
  List.map_replicate

/-- The parts of a whole number. -/
theorem exists_parts_int (i : Int) :
    ∃ parts : NumberParts, parts.Sound ∧ parts.fraction = [] ∧ parts.exponent = none ∧
      parts.chars = Nat.toDigits 10 i.natAbs := by
  obtain ⟨digits, htext, hdigits, hne, -, hhead⟩ := exists_digits i.natAbs
  have hsound : ∀ whole, whole ≠ [] → AreDigits whole → (whole = [0] ∨ whole.head? ≠ some 0) →
      NumberParts.Sound ⟨whole, [], none⟩ := fun whole hfull hwhole hstart =>
    ⟨hfull, hwhole, areDigits_zeros 0, (by intro _ _ h; cases h), hstart⟩
  by_cases hzero : i.natAbs = 0
  · refine ⟨⟨[0], [], none⟩, hsound _ (List.cons_ne_nil _ _) (areDigits_zeros 1) (.inl rfl),
      rfl, rfl, ?_⟩
    rw [hzero]
    rfl
  · refine ⟨⟨digits, [], none⟩, hsound _ hne hdigits (.inr (hhead (Nat.pos_of_ne_zero hzero))),
      rfl, rfl, ?_⟩
    rw [htext]
    exact List.append_nil _

/-- A number that is filled up with zeros. -/
theorem exists_paddedNat (width n : Nat) :
    ∃ digits, (Double.paddedNat width n).toList = digitChars digits ∧ AreDigits digits ∧
      digits ≠ [] ∧ wholeOfDigits 10 digits = n := by
  obtain ⟨digits, htext, hdigits, hne, hvalue, -⟩ := exists_digits n
  refine ⟨List.replicate (width - (toString n).length) 0 ++ digits, ?_,
    areDigits_append (areDigits_zeros _) hdigits, List.append_ne_nil_of_right_ne_nil _ hne, ?_⟩
  · rw [Double.paddedNat, String.toList_append, String.toList_ofList, toList_toString_nat, htext,
      digitChars_append, digitChars_zeros]
  · rw [wholeOfDigits_zeros, hvalue]

/-- What the zeros at the end are cut off. -/
theorem exists_significant {digits : List Nat} (hdigits : AreDigits digits) (hne : digits ≠ [])
    (hhead : digits.head? ≠ some 0) :
    ∃ kept count, digits = kept ++ List.replicate count 0 ∧ kept ≠ [] ∧
      kept.head? = digits.head? ∧ Double.significant (digitChars digits) = digitChars kept := by
  have hzero : ∀ d < 10, d.digitChar = '0' → d = 0 := by decide
  let isZero : Nat → Bool := fun d => d.digitChar == '0'
  have hsplit : digits = (digits.reverse.dropWhile isZero).reverse ++
      (digits.reverse.takeWhile isZero).reverse := by
    rw [← List.reverse_append, List.takeWhile_append_dropWhile, List.reverse_reverse]
  have hzeros : (digits.reverse.takeWhile isZero).reverse =
      List.replicate (digits.reverse.takeWhile isZero).length 0 := by
    rw [List.eq_replicate_iff, List.length_reverse]
    refine ⟨rfl, ?_⟩
    intro d hd
    rw [List.mem_reverse] at hd
    have hmem := List.mem_reverse.mp ((List.takeWhile_prefix isZero).subset hd)
    exact hzero d (hdigits d hmem) (by simpa [isZero] using List.mem_takeWhile_imp hd)
  have hkept : (digits.reverse.dropWhile isZero).reverse ≠ [] := by
    intro hnil
    rw [hnil, List.nil_append, hzeros] at hsplit
    rw [hsplit, List.head?_replicate] at hhead
    split at hhead
    · next hcount =>
        rw [hcount] at hsplit
        exact hne hsplit
    · exact hhead rfl
  refine ⟨_, _, hzeros ▸ hsplit, hkept, ?_, ?_⟩
  · conv_rhs => rw [hsplit, List.head?_append_of_ne_nil _ hkept]
  · rw [Double.significant, digitChars, ← List.map_reverse, List.dropWhile_map, ← List.map_reverse]
    rfl

/-- What laid out digits consist of. -/
structure LaidOut (text : String) (digits : List Nat) (place : Int) (parts : NumberParts) :
    Prop where
  sound : parts.Sound
  chars : text.toList = parts.chars
  /-- There is a point or an exponent. -/
  mark : parts.fraction ≠ [] ∨ parts.exponent ≠ none
  value : parts.value = wholeOfDigits 10 digits * 10 ^ (place - digits.length)

section Layouts

variable {digits : List Nat} {place : Int}

/-- Digits with an exponent. -/
theorem exists_laidOut_exponent (hdigits : AreDigits digits) (hne : digits ≠ [])
    (hhead : digits.head? ≠ some 0)
    (hplace : (place < Double.jsonLayout.leastPlain || Double.jsonLayout.greatestPlain < place) =
      true) :
    ∃ parts, LaidOut (Double.layDigits Double.jsonLayout (digitChars digits) place) digits place
      parts := by
  obtain ⟨d, others, hcons⟩ := List.exists_cons_of_ne_nil hne
  subst hcons
  obtain ⟨hd, hothers⟩ := List.forall_mem_cons.mp hdigits
  obtain ⟨exponent, htext, hexponent, hfull, hvalue⟩ :=
    exists_paddedNat Double.jsonLayout.exponentWidth (place - 1).natAbs
  refine ⟨⟨[d], others, some (decide (place - 1 < 0), exponent)⟩, ⟨?_, ?_, ?_, ?_, ?_⟩, ?_, ?_, ?_⟩
  · exact List.cons_ne_nil _ _
  · exact List.forall_mem_singleton.mpr hd
  · exact hothers
  · intro negative digits heq
    cases heq
    exact ⟨hfull, hexponent⟩
  · exact .inr hhead
  · unfold Double.layDigits
    rw [if_pos hplace]
    cases others with
    | nil =>
        by_cases hsign : place - 1 < 0 <;>
          simp [NumberParts.chars, NumberParts.fractionChars, NumberParts.exponentChars,
            digitChars, hsign, htext]
    | cons e others =>
        by_cases hsign : place - 1 < 0 <;>
          simp [NumberParts.chars, NumberParts.fractionChars, NumberParts.exponentChars,
            digitChars, hsign, htext]
  · exact .inr (Option.some_ne_none _)
  · have hexponentValue : signedValue (decide (place - 1 < 0)) (place - 1).natAbs = place - 1 := by
      rw [signedValue]
      split
      · next h =>
          rw [decide_eq_true_eq] at h
          omega
      · next h =>
          rw [decide_eq_true_eq] at h
          omega
    have hplaces : place - 1 - (others.length : Int) = place - ((d :: others).length : Int) := by
      rw [List.length_cons]
      omega
    rw [NumberParts.value_exponent, hvalue, hexponentValue, hplaces]
    rfl

/-- Digits behind the point. -/
theorem exists_laidOut_fraction (hdigits : AreDigits digits) (hne : digits ≠ [])
    (hplace : ¬ (place < Double.jsonLayout.leastPlain ||
      Double.jsonLayout.greatestPlain < place) = true) (hpoint : place ≤ 0) :
    ∃ parts, LaidOut (Double.layDigits Double.jsonLayout (digitChars digits) place) digits place
      parts := by
  have hfull : List.replicate (-place).toNat 0 ++ digits ≠ [] :=
    List.append_ne_nil_of_right_ne_nil _ hne
  refine ⟨⟨[0], List.replicate (-place).toNat 0 ++ digits, none⟩,
    ⟨?_, ?_, ?_, ?_, ?_⟩, ?_, ?_, ?_⟩
  · exact List.cons_ne_nil _ _
  · exact List.forall_mem_singleton.mpr (by decide)
  · exact areDigits_append (areDigits_zeros _) hdigits
  · intro negative digits heq
    cases heq
  · exact .inl rfl
  · unfold Double.layDigits
    rw [if_neg hplace, if_pos hpoint, NumberParts.chars,
      NumberParts.fractionChars, if_neg hfull, String.toList_append,
      show "0.".toList = ['0', '.'] from rfl, String.toList_ofList, digitChars_append,
      digitChars_zeros]
    exact congrArg (fun tail => '0' :: '.' :: tail) (List.append_nil _).symm
  · exact .inl hfull
  · have hplaces : -((List.replicate (-place).toNat 0 ++ digits).length : Int) =
        place - (digits.length : Int) := by
      rw [List.length_append, List.length_replicate]
      omega
    rw [NumberParts.value_plain, hplaces, List.singleton_append, wholeOfDigits_zero_cons,
      wholeOfDigits_zeros]

/-- Digits around the point, or all before it. -/
theorem exists_laidOut_whole (hdigits : AreDigits digits) (hne : digits ≠ [])
    (hhead : digits.head? ≠ some 0)
    (hplace : ¬ (place < Double.jsonLayout.leastPlain ||
      Double.jsonLayout.greatestPlain < place) = true) (hpoint : ¬ place ≤ 0) :
    ∃ parts, LaidOut (Double.layDigits Double.jsonLayout (digitChars digits) place) digits place
      parts := by
  obtain ⟨before, hbefore⟩ := Int.eq_ofNat_of_zero_le (by omega : 0 ≤ place)
  subst hbefore
  have hstart : (digits.take before ++ List.replicate (before - (digits.take before).length) 0).head?
      ≠ some 0 := by
    have htake : digits.take before ≠ [] := by
      rw [Ne, List.take_eq_nil_iff, not_or]
      exact ⟨by omega, hne⟩
    rwa [List.head?_append_of_ne_nil _ htake, List.head?_take, if_neg (by omega)]
  have htext : (Double.layDigits Double.jsonLayout (digitChars digits) before).toList =
      digitChars (digits.take before ++
        List.replicate (before - (digits.take before).length) 0) ++
      '.' :: digitChars (if digits.drop before = [] then [0] else digits.drop before) := by
    have hdrop : ((digitChars digits).drop before).isEmpty = decide (digits.drop before = []) := by
      rw [digitChars, ← List.map_drop, List.isEmpty_map]
      cases digits.drop before <;> rfl
    unfold Double.layDigits
    rw [if_neg hplace, if_neg hpoint]
    simp only [Int.toNat_natCast, hdrop, String.toList_ofList, digitChars_append, digitChars_zeros]
    rw [digitChars, digitChars, ← List.map_take, ← List.map_drop, List.length_map]
    by_cases hnil : digits.drop before = []
    · simp [hnil, digitChars]
    · simp [hnil, digitChars]
  refine ⟨⟨digits.take before ++ List.replicate (before - (digits.take before).length) 0,
    if digits.drop before = [] then [0] else digits.drop before, none⟩,
    ⟨?_, ?_, ?_, ?_, ?_⟩, ?_, ?_, ?_⟩
  · intro hnil
    have hlength := congrArg List.length hnil
    rw [List.length_append, List.length_replicate, List.length_nil] at hlength
    omega
  · exact areDigits_append (fun d hd => hdigits d (List.mem_of_mem_take hd)) (areDigits_zeros _)
  · split
    · exact List.forall_mem_singleton.mpr (by decide)
    · exact fun d hd => hdigits d (List.mem_of_mem_drop hd)
  · intro negative digits heq
    cases heq
  · exact .inr hstart
  · have hfull : (if digits.drop before = [] then [0] else digits.drop before) ≠ [] := by
      split
      · exact List.cons_ne_nil _ _
      · next hdrop => exact hdrop
    rw [htext, NumberParts.chars, NumberParts.fractionChars, if_neg hfull]
    exact congrArg (fun tail => _ ++ tail) (List.append_nil _).symm
  · refine .inl ?_
    simp only
    split
    · exact List.cons_ne_nil _ _
    · next hdrop => exact hdrop
  · rw [NumberParts.value_plain]
    by_cases hdrop : digits.drop before = []
    · -- All digits stand before the point, which zeros fill up to.
      have hle : digits.length ≤ before := List.drop_eq_nil_iff.mp hdrop
      obtain ⟨count, hcount⟩ := Nat.exists_eq_add_of_le hle
      rw [if_pos hdrop, List.take_of_length_le hle, wholeOfDigits_append_single,
        wholeOfDigits_append, wholeOfDigits_replicate_zero, List.length_replicate, hcount,
        Nat.add_sub_cancel_left, List.length_singleton]
      push_cast
      rw [add_sub_cancel_left, zpow_natCast, zpow_neg_one]
      ring
    · have hlt : before < digits.length := by
        by_contra hge
        exact hdrop (List.drop_eq_nil_of_le (by omega))
      have hzeros : before - (digits.take before).length = 0 := by
        rw [List.length_take]
        omega
      have hplaces : -((digits.drop before).length : Int) = before - (digits.length : Int) := by
        rw [List.length_drop]
        omega
      rw [if_neg hdrop, hzeros, List.replicate_zero, List.append_nil, List.take_append_drop,
        hplaces]

end Layouts

/-- **Digits are laid out** with a point or an exponent, and however that is done they
write the same number. -/
theorem exists_laidOut {digits : List Nat} (hdigits : AreDigits digits) (hne : digits ≠ [])
    (hhead : digits.head? ≠ some 0) (place : Int) :
    ∃ parts, LaidOut (Double.layDigits Double.jsonLayout (digitChars digits) place) digits place
      parts := by
  by_cases hplace : (place < Double.jsonLayout.leastPlain ||
      Double.jsonLayout.greatestPlain < place) = true
  · exact exists_laidOut_exponent hdigits hne hhead hplace
  · by_cases hpoint : place ≤ 0
    · exact exists_laidOut_fraction hdigits hne hplace hpoint
    · exact exists_laidOut_whole hdigits hne hhead hplace hpoint

/-! ### Doubles -/

/-- Zeros in front can be left out. -/
theorem wholeOfDigits_dropWhile (digits : List Nat) :
    wholeOfDigits 10 (digits.dropWhile (· == 0)) = wholeOfDigits 10 digits := by
  induction digits with
  | nil => rfl
  | cons d digits ih =>
      by_cases hd : d = 0
      · rw [hd, List.dropWhile_cons_of_pos (by rfl), ih, wholeOfDigits_zero_cons]
      · rw [List.dropWhile_cons_of_neg (by simpa using hd)]

/-- What is left without the zeros in front: nothing, or digits of which the first is not
zero. -/
theorem dropWhile_zeros {digits : List Nat} (hdigits : AreDigits digits) :
    digits.dropWhile (· == 0) = [] ∨ ∃ d others, digits.dropWhile (· == 0) = d :: others ∧
      10 ^ others.length ≤ wholeOfDigits 10 (d :: others) ∧
      wholeOfDigits 10 (d :: others) < 10 ^ (others.length + 1) := by
  cases hcons : digits.dropWhile (· == 0) with
  | nil => exact .inl rfl
  | cons d others =>
      have hd : d ≠ 0 := by
        have hhead := List.head?_dropWhile_not (· == 0) digits
        rw [hcons] at hhead
        simpa using hhead
      have hkept : AreDigits (d :: others) := fun e he =>
        hdigits e ((List.dropWhile_suffix _).subset (hcons ▸ he))
      exact .inr ⟨d, others, rfl, le_wholeOfDigits hd, wholeOfDigits_lt hkept⟩

/-- **Digits that write a number in the interval of a double** are read as it. -/
theorem decimalOf_of_rounds (negative : Bool) {significand : Nat} {exponent : Int}
    (hproper : Proper significand exponent) (hsignificand : 0 < significand) {digits : List Nat}
    (hdigits : AreDigits digits) (hpos : 0 < wholeOfDigits 10 digits) {behind : Nat} {place : Int}
    (h : Rounds significand exponent (wholeOfDigits 10 digits * 10 ^ (place - behind))) :
    decimalOf negative digits behind place = .finite negative significand exponent := by
  rw [decimalOf]
  rw [← wholeOfDigits_dropWhile] at hpos h ⊢
  rcases dropWhile_zeros hdigits with hnil | ⟨d, others, hcons, hlow, hhigh⟩
  · rw [hnil] at hpos
    exact absurd hpos (by decide)
  · rw [hcons] at h ⊢
    exact ofDecimal_of_rounds negative hproper hsignificand hlow hhigh h

/-- **Digits around a point** are read as the double nearest to what they write. -/
theorem decimalOf_eq_ofRatio (negative : Bool) {digits : List Nat} (hdigits : AreDigits digits)
    {behind : Nat} (hbehind : 0 < behind) :
    decimalOf negative digits behind 0 =
      Double.ofRatio negative (wholeOfDigits 10 digits) (tenTo behind) := by
  rw [decimalOf, zero_sub, ← wholeOfDigits_dropWhile]
  rcases dropWhile_zeros hdigits with hnil | ⟨d, others, hcons, hlow, hhigh⟩
  · rw [hnil]
    rfl
  · rw [hcons]
    exact ofDecimal_eq_ofRatio negative (fun _ => hlow) hhigh hbehind

/-- **A double is read back from its text.** -/
theorem exists_render (negative : Bool) {significand : Nat} {exponent : Int}
    (hproper : Proper significand exponent) :
    ∃ parts : NumberParts, parts.Sound ∧ (parts.fraction ≠ [] ∨ parts.exponent ≠ none) ∧
      (Double.render Double.jsonLayout (.finite negative significand exponent)).toList =
        minus negative ++ parts.chars ∧
      readDecimal (minus negative ++ parts.chars) =
        .ok (.finite negative significand exponent) := by
  have hsign : (if negative then "-" else "").toList = minus negative := by
    cases negative <;> rfl
  by_cases hzero : significand = 0
  · have hexponent : exponent = Double.leastExponent := by
      rcases hproper.least.eq_or_lt with heq | hlt
      · exact heq.symm
      · have := hproper.normal hlt
        omega
    have hsound : NumberParts.Sound ⟨[0], [0], none⟩ :=
      ⟨List.cons_ne_nil _ _, areDigits_zeros 1, areDigits_zeros 1, (by intro _ _ h; cases h),
        .inl rfl⟩
    refine ⟨⟨[0], [0], none⟩, hsound, .inl (List.cons_ne_nil _ _), ?_, ?_⟩
    · rw [Double.render, String.toList_append, hsign, if_pos hzero]
      rfl
    · rw [NumberParts.readDecimal_chars negative hsound, hzero, hexponent]
      rfl
  · have hsignificand : 0 < significand := Nat.pos_of_ne_zero hzero
    obtain ⟨hpos, hrounds⟩ := Double.shortest_rounds hproper hsignificand
    obtain ⟨digits, htext, hdigits, hne, hvalue, hhead⟩ :=
      exists_digits (Double.shortest significand exponent).digits
    obtain ⟨kept, count, hsplit, hkept, hstart, hsignificant⟩ :=
      exists_significant hdigits hne (hhead hpos)
    have hkeptDigits : AreDigits kept := fun d hd =>
      hdigits d (by rw [hsplit]; exact List.mem_append_left _ hd)
    obtain ⟨parts, hparts⟩ := exists_laidOut hkeptDigits hkept (hstart ▸ hhead hpos)
      ((Double.shortest significand exponent).place + digits.length)
    refine ⟨parts, hparts.sound, hparts.mark, ?_, ?_⟩
    · rw [Double.render, String.toList_append, hsign, if_neg hzero, ← hparts.chars]
      simp only [toList_toString_nat, htext, hsignificant, length_digitChars]
    · have hlength : digits.length = kept.length + count := by
        rw [hsplit, List.length_append, List.length_replicate]
      have hsame : (wholeOfDigits 10 parts.digits : ℚ) *
          10 ^ (parts.exponentValue - parts.fraction.length) =
            (Double.shortest significand exponent).digits *
              10 ^ (Double.shortest significand exponent).place := by
        rw [← NumberParts.value, hparts.value, ← hvalue, hsplit, wholeOfDigits_append,
          wholeOfDigits_replicate_zero, List.length_replicate, ← hsplit, hlength]
        push_cast
        rw [add_zero, mul_assoc, ← zpow_natCast, ← zpow_add₀ (by norm_num)]
        congr 2
        ring
      have hwritten : 0 < wholeOfDigits 10 parts.digits := by
        have hq : (0 : ℚ) < (Double.shortest significand exponent).digits *
            10 ^ (Double.shortest significand exponent).place :=
          mul_pos (by exact_mod_cast hpos) (ten_zpow_pos _)
        rw [← hsame] at hq
        exact_mod_cast pos_of_mul_pos_left hq (ten_zpow_pos _).le
      have hall : AreDigits parts.digits :=
        areDigits_append hparts.sound.whole hparts.sound.fraction
      rw [NumberParts.readDecimal_chars negative hparts.sound,
        decimalOf_of_rounds negative hproper hsignificand hall hwritten (hsame ▸ hrounds)]

end ContentCatalog.Number
