import ContentCatalog.Proofs.NumberReading
import ContentCatalog.Proofs.ShortestDecimal

/-!
# The digits of printed numbers

The decimal digits that a whole number is printed with are read as that number, and a
text whose digits write a number in the interval of a double is read as that double.

* `allDigits?_toDigits` : the digits of a whole number;
* `readInteger_toString` : whole numbers are read back;
* `ofDecimal_of_rounds` : decimals in the interval of a double are read as the double;
* `ofDecimal_eq_ofRatio` : decimal fractions are read as the nearest double.
-/

namespace ContentCatalog.Number

open Double (tenTo_eq ten_zpow_pos two_zpow_pos Proper Rounds)

/-! ### Numbers from digits -/

/-- The digits in front count by as many places as stand behind them. -/
theorem wholeOfDigits_append (base : Nat) (digits others : List Nat) :
    wholeOfDigits base (digits ++ others) =
      wholeOfDigits base digits * base ^ others.length + wholeOfDigits base others := by
  induction others using List.reverseRecOn with
  | nil => simp [wholeOfDigits]
  | append_singleton others last ih =>
      rw [← List.append_assoc, wholeOfDigits_append_single, ih, wholeOfDigits_append_single,
        List.length_append, List.length_singleton, pow_succ]
      ring

/-- Zeros make no number. -/
theorem wholeOfDigits_replicate_zero (base count : Nat) :
    wholeOfDigits base (List.replicate count 0) = 0 := by
  induction count with
  | zero => rfl
  | succ count ih =>
      rw [List.replicate_succ', wholeOfDigits_append_single, ih, Nat.zero_mul]

/-- So many digits write less than that power of ten. -/
theorem wholeOfDigits_lt {digits : List Nat} (h : ∀ d ∈ digits, d < 10) :
    wholeOfDigits 10 digits < 10 ^ digits.length := by
  induction digits using List.reverseRecOn with
  | nil => decide
  | append_singleton digits last ih =>
      have hdigits := ih fun d hd => h d (List.mem_append_left _ hd)
      have hlast := h last (by simp)
      rw [wholeOfDigits_append_single, List.length_append, List.length_singleton, pow_succ]
      omega

/-- And not less than the power before, if the first of them is not zero. -/
theorem le_wholeOfDigits {d : Nat} {digits : List Nat} (h : d ≠ 0) :
    10 ^ digits.length ≤ wholeOfDigits 10 (d :: digits) := by
  have hsplit := wholeOfDigits_append 10 [d] digits
  rw [List.singleton_append] at hsplit
  have hfirst : wholeOfDigits 10 [d] = d := by simp [wholeOfDigits]
  rw [hsplit, hfirst]
  have := Nat.mul_le_mul_right (10 ^ digits.length) (Nat.one_le_iff_ne_zero.mpr h)
  omega

/-- Digits that were read are less than ten. -/
theorem allDigits?_lt {text : List Char} {values : List Nat}
    (h : allDigits? 10 text = some values) : ∀ d ∈ values, d < 10 := by
  induction text generalizing values with
  | nil =>
      have hnil : values = [] := (Option.some.inj h).symm
      rw [hnil]
      exact List.forall_mem_nil _
  | cons c text ih =>
      obtain ⟨d, others, heq, hd, ho⟩ := allDigits?_cons h
      rw [heq]
      exact List.forall_mem_cons.mpr ⟨(digitIn?_ten.mp hd).2, ih ho⟩

/-! ### The digits of whole numbers -/

/-- The figure of a digit is read as that digit. -/
theorem digitIn?_digitChar {d : Nat} (h : d < 10) : digitIn? 10 d.digitChar = some d := by
  have hall : ∀ d < 10, digitIn? 10 d.digitChar = some d := by decide
  exact hall d h

/-- A number is printed in its decimal digits. -/
theorem toList_toString_nat (n : Nat) : (toString n).toList = Nat.toDigits 10 n :=
  Nat.toList_repr

/-- **The digits of a whole number** write that number. -/
theorem allDigits?_toDigits (n : Nat) :
    ∃ values, allDigits? 10 (Nat.toDigits 10 n) = some values ∧ wholeOfDigits 10 values = n := by
  induction n using Nat.strong_induction_on with
  | _ n ih =>
      by_cases hn : n < 10
      · refine ⟨[n], ?_, by simp [wholeOfDigits]⟩
        rw [Nat.toDigits_of_lt_base hn, allDigits?, List.mapM_cons, digitIn?_digitChar hn]
        rfl
      · obtain ⟨values, hv, hvalue⟩ := ih (n / 10) (by omega)
        have hlast : allDigits? 10 [(n % 10).digitChar] = some [n % 10] := by
          rw [allDigits?, List.mapM_cons, digitIn?_digitChar (Nat.mod_lt n (by decide))]
          rfl
        refine ⟨values ++ [n % 10], ?_, ?_⟩
        · rw [Nat.toDigits_of_base_le (by decide) (by omega)]
          exact allDigits?_append hv hlast
        · rw [wholeOfDigits_append_single, hvalue]
          omega

/-- They do not begin with zero, but for zero itself. -/
theorem head?_toDigits {n : Nat} (h : 0 < n) : (Nat.toDigits 10 n).head? ≠ some '0' := by
  induction n using Nat.strong_induction_on with
  | _ n ih =>
      by_cases hn : n < 10
      · have hall : ∀ d < 10, 0 < d → d.digitChar ≠ '0' := by decide
        rw [Nat.toDigits_of_lt_base hn, List.head?_cons]
        exact fun heq => hall n hn h (Option.some.inj heq)
      · rw [Nat.toDigits_of_base_le (by decide) (by omega),
          List.head?_append_of_ne_nil _ Nat.toDigits_ne_nil]
        exact ih (n / 10) (by omega) (by omega)

/-! ### Characters of numbers -/

/-- The readers see such a character as it is, and it is no blank. -/
def IsPlain (c : Char) : Prop :=
  numeral c = c ∧ isNumberBlank c = false

/-- A figure is a plain character. -/
theorem isPlain_digit {c : Char} {d : Nat} (h : digitIn? 10 c = some d) : IsPlain c := by
  obtain ⟨hc, hd⟩ := digitIn?_ten.mp h
  exact ⟨by rw [numeral, if_pos (by omega)], (digit_facts h).1⟩

/-- Plain characters stand for themselves in a numeral. -/
theorem map_numeral {text : List Char} (h : ∀ c ∈ text, IsPlain c) : text.map numeral = text := by
  induction text with
  | nil => rfl
  | cons c text ih =>
      obtain ⟨hc, htext⟩ := List.forall_mem_cons.mp h
      rw [List.map_cons, hc.1, ih htext]

/-- A text that is all digits is plain. -/
theorem isPlain_of_allDigits? {text : List Char} {values : List Nat}
    (h : allDigits? 10 text = some values) : ∀ c ∈ text, IsPlain c := by
  intro c hc
  obtain ⟨d, hd⟩ := allDigits?_mem h hc
  exact isPlain_digit hd

/-! ### Whole numbers -/

/-- The text of a whole number is its sign and the digits of its size. -/
theorem toList_toString_int (i : Int) :
    (toString i).toList = minus (decide (i < 0)) ++ Nat.toDigits 10 i.natAbs := by
  cases i with
  | ofNat n =>
      have hsign : decide (Int.ofNat n < 0) = false :=
        decide_eq_false (not_lt.mpr (Int.natCast_nonneg n))
      rw [show toString (Int.ofNat n) = toString n from rfl, toList_toString_nat, hsign]
      rfl
  | negSucc n =>
      rw [show toString (Int.negSucc n) = "-" ++ toString (n + 1) from rfl, String.toList_append,
        toList_toString_nat, decide_eq_true (Int.negSucc_lt_zero n), minus_true]
      rfl

/-- A number has few digits if it is less than a power of ten. -/
theorem length_toDigits_le_iff {n limit : Nat} (hlimit : 0 < limit) :
    (Nat.toDigits 10 n).length ≤ limit ↔ n < tenTo limit :=
  Nat.length_toDigits_le_iff (by decide) hlimit

/-- **A whole number that is not too long** is read back. -/
theorem readInteger_toString {i : Int} (h : i.natAbs < tenTo digitLimit) :
    readInteger 10 (minus (decide (i < 0)) ++ Nat.toDigits 10 i.natAbs) = .ok i := by
  obtain ⟨values, hv, hvalue⟩ := allDigits?_toDigits i.natAbs
  have hseen : (Nat.toDigits 10 i.natAbs).map numeral = Nat.toDigits 10 i.natAbs :=
    map_numeral (isPlain_of_allDigits? hv)
  have hlength : (Nat.toDigits 10 i.natAbs).length ≤ digitLimit :=
    (length_toDigits_le_iff (by decide)).mpr h
  rw [readInteger_of_digits _ Nat.toDigits_ne_nil (hseen.symm ▸ hv), if_neg (by omega), hvalue,
    signedValue]
  congr 1
  by_cases hi : i < 0
  · rw [if_pos (decide_eq_true hi)]
    omega
  · rw [if_neg (by simpa using hi)]
    omega

/-! ### Doubles -/

/-- The quotients that are rounded to a proper double are neither too great nor too
small to be looked at. -/
theorem bounds_of_rounds {significand : Nat} {exponent : Int} {q : ℚ}
    (hproper : Proper significand exponent) (hsignificand : 0 < significand)
    (h : Rounds significand exponent q) : (10 : ℚ) ^ (-324 : Int) < q ∧ q < 10 ^ (309 : Int) := by
  obtain ⟨-, hwidth, hhigh, -⟩ := Double.roundingHalfWidths_spec significand exponent
  have he := two_zpow_pos exponent
  have hw : ((Double.roundingHalfWidths significand exponent).1 : ℚ) ≤ 2 := by
    exact_mod_cast hwidth
  have hclosed : (significand : ℚ) - 1 / 2 ≤ q / 2 ^ exponent ∧
      q / 2 ^ exponent ≤ significand + 1 / 2 := by
    rw [Rounds, hhigh] at h
    push_cast at h
    split at h
    · exact ⟨by linarith [h.1], by linarith [h.2]⟩
    · exact ⟨by linarith [h.1], by linarith [h.2]⟩
  rw [le_div_iff₀ he, div_le_iff₀ he] at hclosed
  have hone : (1 : ℚ) ≤ significand := by exact_mod_cast hsignificand
  have hbelow : (significand : ℚ) + 1 ≤ 2 ^ 53 := by exact_mod_cast hproper.below
  have hleast : (2 : ℚ) ^ (-1074 : Int) ≤ 2 ^ exponent :=
    zpow_le_zpow_right₀ (by norm_num) hproper.least
  have hgreatest : (2 : ℚ) ^ exponent ≤ 2 ^ (971 : Int) :=
    zpow_le_zpow_right₀ (by norm_num) hproper.greatest
  have hsmall : (10 : ℚ) ^ (-324 : Int) < 1 / 2 * 2 ^ (-1074 : Int) := by
    have hnat : 2 * 2 ^ 1074 < 10 ^ 324 := by decide +kernel
    have hcast : (2 * 2 ^ 1074 : ℚ) < 10 ^ 324 := by exact_mod_cast hnat
    rw [zpow_neg, zpow_neg, show (324 : Int) = (324 : Nat) from rfl,
      show (1074 : Int) = (1074 : Nat) from rfl, zpow_natCast, zpow_natCast, one_div,
      ← mul_inv]
    exact inv_strictAnti₀ (by positivity) hcast
  have hgreat : (2 : ℚ) ^ 53 * 2 ^ (971 : Int) < 10 ^ (309 : Int) := by
    have hnat : 2 ^ 53 * 2 ^ 971 < 10 ^ 309 := by decide +kernel
    rw [show (971 : Int) = (971 : Nat) from rfl, show (309 : Int) = (309 : Nat) from rfl,
      zpow_natCast, zpow_natCast]
    exact_mod_cast hnat
  constructor
  · calc (10 : ℚ) ^ (-324 : Int) < 1 / 2 * 2 ^ (-1074 : Int) := hsmall
      _ ≤ 1 / 2 * 2 ^ exponent := mul_le_mul_of_nonneg_left hleast (by norm_num)
      _ ≤ (significand - 1 / 2) * 2 ^ exponent :=
        mul_le_mul_of_nonneg_right (by linarith) he.le
      _ ≤ q := hclosed.1
  · calc q ≤ (significand + 1 / 2) * 2 ^ exponent := hclosed.2
      _ ≤ 2 ^ 53 * 2 ^ exponent := mul_le_mul_of_nonneg_right (by linarith) he.le
      _ ≤ 2 ^ 53 * 2 ^ (971 : Int) := mul_le_mul_of_nonneg_left hgreatest (by norm_num)
      _ < 10 ^ (309 : Int) := hgreat

/-- **A decimal in the interval of a double** is read as that double. -/
theorem ofDecimal_of_rounds (negative : Bool) {significand : Nat} {exponent : Int}
    (hproper : Proper significand exponent) (hsignificand : 0 < significand)
    {digits width : Nat} {place : Int} (hdigits : 10 ^ width ≤ digits)
    (hwidth : digits < 10 ^ (width + 1))
    (h : Rounds significand exponent (digits * 10 ^ place)) :
    ofDecimal negative digits (width + 1) place = .finite negative significand exponent := by
  obtain ⟨hsmall, hgreat⟩ := bounds_of_rounds hproper hsignificand h
  have hten := ten_zpow_pos place
  have hpos : 0 < digits := lt_of_lt_of_le (by positivity) hdigits
  have hlow : (10 : ℚ) ^ (width + place) ≤ digits * 10 ^ place := by
    rw [zpow_add₀ (by norm_num), zpow_natCast]
    exact mul_le_mul_of_nonneg_right (by exact_mod_cast hdigits) hten.le
  have hhigh : (digits : ℚ) * 10 ^ place < 10 ^ (width + 1 + place) := by
    rw [zpow_add₀ (by norm_num), ← Nat.cast_succ, zpow_natCast]
    exact mul_lt_mul_of_pos_right (by exact_mod_cast hwidth) hten
  have hbelow : (width : Int) + place < 309 :=
    (zpow_lt_zpow_iff_right₀ (by norm_num : (1 : ℚ) < 10)).mp (hlow.trans_lt hgreat)
  have habove : -324 < (width : Int) + 1 + place :=
    (zpow_lt_zpow_iff_right₀ (by norm_num : (1 : ℚ) < 10)).mp (hsmall.trans hhigh)
  have hcast : ((width + 1 : Nat) : Int) = width + 1 := by push_cast; rfl
  rw [ofDecimal, if_neg hpos.ne', hcast, if_neg (by omega), if_neg (by omega)]
  split
  · next hplace =>
      refine Double.ofRatio_of_rounds negative hproper (Nat.mul_pos hpos (tenTo_pos _))
        Nat.one_pos ?_
      rw [Nat.cast_one, div_one, Nat.cast_mul, tenTo_eq, Int.toNat_of_nonneg hplace]
      exact h
  · next hplace =>
      refine Double.ofRatio_of_rounds negative hproper hpos (tenTo_pos _) ?_
      rw [tenTo_eq, Int.toNat_of_nonneg (by omega), zpow_neg, div_inv_eq_mul]
      exact h

/-- **A decimal fraction** is read as the double nearest to it: where nothing is computed,
nothing else would come out. -/
theorem ofDecimal_eq_ofRatio (negative : Bool) {digits width behind : Nat}
    (hdigits : digits ≠ 0 → 10 ^ width ≤ digits) (hwidth : digits < 10 ^ (width + 1))
    (hbehind : 0 < behind) :
    ofDecimal negative digits (width + 1) (-behind) =
      Double.ofRatio negative digits (tenTo behind) := by
  by_cases hzero : digits = 0
  · rw [ofDecimal, if_pos hzero, Double.ofRatio, if_pos hzero]
  have hpos : 0 < digits := Nat.pos_of_ne_zero hzero
  have hten := ten_zpow_pos behind
  have hlow : (10 : ℚ) ^ ((width : Int) - behind) ≤ digits / tenTo behind := by
    rw [tenTo_eq, zpow_sub₀ (by norm_num), zpow_natCast]
    apply div_le_div_of_nonneg_right _ hten.le
    exact_mod_cast hdigits hzero
  have hhigh : (digits : ℚ) / tenTo behind < 10 ^ ((width : Int) + 1 - behind) := by
    rw [tenTo_eq, zpow_sub₀ (by norm_num), ← Nat.cast_succ, zpow_natCast]
    apply div_lt_div_of_pos_right _ hten
    exact_mod_cast hwidth
  have hcast : ((width + 1 : Nat) : Int) = width + 1 := by push_cast; rfl
  rw [ofDecimal, if_neg hzero, hcast]
  split
  · next hgreat =>
      apply (Double.ofRatio_of_great negative hpos (tenTo_pos _) _).symm
      have hnat : 2 ^ 1025 ≤ 10 ^ 310 := by decide +kernel
      calc (2 : ℚ) ^ (1025 : Int) ≤ 10 ^ (310 : Int) := by
            rw [show (1025 : Int) = (1025 : Nat) from rfl, show (310 : Int) = (310 : Nat) from rfl,
              zpow_natCast, zpow_natCast]
            exact_mod_cast hnat
        _ ≤ 10 ^ ((width : Int) - behind) := zpow_le_zpow_right₀ (by norm_num) (by omega)
        _ ≤ digits / tenTo behind := hlow
  · split
    · next hsmall =>
        apply (Double.ofRatio_of_small negative hpos (tenTo_pos _) _).symm
        have hnat : 2 ^ 1076 < 10 ^ 331 := by decide +kernel
        have hcast : (2 : ℚ) ^ 1076 < 10 ^ 331 := by exact_mod_cast hnat
        calc (digits : ℚ) / tenTo behind < 10 ^ ((width : Int) + 1 - behind) := hhigh
          _ ≤ 10 ^ (-331 : Int) := zpow_le_zpow_right₀ (by norm_num) (by omega)
          _ < 2 ^ (-1076 : Int) := by
            rw [zpow_neg, zpow_neg, show (331 : Int) = (331 : Nat) from rfl,
              show (1076 : Int) = (1076 : Nat) from rfl, zpow_natCast, zpow_natCast]
            exact inv_strictAnti₀ (by positivity) hcast
    · rw [if_neg (by omega), neg_neg, Int.toNat_natCast]

end ContentCatalog.Number
