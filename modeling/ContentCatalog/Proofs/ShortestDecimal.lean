import ContentCatalog.Proofs.Rounding

/-!
# The shortest decimal of a double

The decimal that is printed for a double lies in the interval of the double, so that
it is rounded to that double when it is read.  Seventeen digits are always enough:
then the points of the decimal grid lie closer than the interval is wide.

* `ten_zpow_le` : where the search for the decimal point begins;
* `gridPoint?_rounds` : what is found on a grid lies in the interval;
* `isSome_gridPoint?` : a grid that is fine enough has such a point;
* `shortest_rounds` : the statement about the shortest decimal.
-/

namespace ContentCatalog.Double

/-! ### Powers of ten -/

/-- Powers of ten are those of the rational numbers. -/
theorem tenTo_eq (n : Nat) : (tenTo n : ℚ) = 10 ^ (n : Int) := by
  rw [tenTo, zpow_natCast]
  exact Nat.cast_pow 10 n

theorem ten_zpow_pos (e : Int) : (0 : ℚ) < 10 ^ e :=
  zpow_pos (by norm_num) e

/-- A power of two as a quotient. -/
theorem power2_spec (n : Nat) (e : Int) :
    (power2 n e).1 = n * (power2 1 e).1 ∧ (power2 n e).2 = (power2 1 e).2 ∧
      0 < (power2 1 e).1 ∧ 0 < (power2 1 e).2 ∧
      ((power2 1 e).1 : ℚ) / (power2 1 e).2 = 2 ^ e := by
  unfold power2
  split
  · next he =>
      refine ⟨by rw [Nat.one_mul], rfl, by rw [Nat.one_mul]; exact twoTo_pos _, Nat.one_pos, ?_⟩
      rw [Nat.one_mul, twoTo_eq, Int.toNat_of_nonneg he, Nat.cast_one, div_one]
  · next he =>
      refine ⟨(Nat.mul_one n).symm, rfl, Nat.one_pos, twoTo_pos _, ?_⟩
      rw [twoTo_eq, Int.toNat_of_nonneg (by omega), zpow_neg, Nat.cast_one, one_div, inv_inv]

/-- The comparison of a quotient with a power of ten. -/
theorem belowPower10_iff {num den : Nat} (hden : 0 < den) {k : Int} :
    belowPower10 num den k = true ↔ (num : ℚ) / den < 10 ^ k := by
  have hd : (0 : ℚ) < den := by positivity
  rw [belowPower10]
  split
  · next hk =>
      rw [decide_eq_true_eq, div_lt_iff₀ hd, ← Int.toNat_of_nonneg hk, ← tenTo_eq, mul_comm,
        ← Nat.cast_mul, Nat.cast_lt, Int.toNat_natCast]
  · next hk =>
      have hpow : (10 : ℚ) ^ k = (tenTo (-k).toNat : ℚ)⁻¹ := by
        rw [tenTo_eq, Int.toNat_of_nonneg (by omega), zpow_neg, inv_inv]
      have hten : (0 : ℚ) < tenTo (-k).toNat := by exact_mod_cast tenTo_pos _
      rw [decide_eq_true_eq, div_lt_iff₀ hd, hpow, inv_mul_eq_div, lt_div_iff₀ hten,
        ← Nat.cast_mul, Nat.cast_lt]

/-- The magnitudes of doubles. -/
def magnitudes : List Int :=
  (List.range 2098).map fun (n : Nat) => (n : Int) - 1074

/-- The place where the search for the decimal point of a magnitude begins. -/
def searchStart (magnitude : Int) : Int :=
  Int.fdiv (magnitude * 30103) 100000 - 1

/-- **The search for the decimal point** does not begin too high. -/
theorem ten_zpow_le {magnitude : Int} (hl : -1074 ≤ magnitude) (hg : magnitude ≤ 1023) :
    (10 : ℚ) ^ (searchStart magnitude - 1) ≤ 2 ^ magnitude := by
  have hall : ∀ magnitude ∈ magnitudes, belowPower10 (power2 1 magnitude).1
      (power2 1 magnitude).2 (searchStart magnitude - 1) = false := by
    decide +kernel
  have hm : magnitude ∈ magnitudes := by
    rw [magnitudes, List.mem_map]
    exact ⟨(magnitude + 1074).toNat, List.mem_range.mpr (by omega), by omega⟩
  obtain ⟨-, -, -, hden, hvalue⟩ := power2_spec 1 magnitude
  have hnot := hall magnitude hm
  rw [← Bool.not_eq_true, belowPower10_iff hden, hvalue, not_lt] at hnot
  exact hnot

/-- The search leaves the number at or above the place before the one it finds. -/
theorem decimalPlaceFrom_spec {num den : Nat} (hden : 0 < den) (fuel : Nat) {start : Int}
    (h : (10 : ℚ) ^ (start - 1) ≤ num / den) :
    (10 : ℚ) ^ (decimalPlaceFrom num den fuel start - 1) ≤ num / den := by
  induction fuel generalizing start with
  | zero => exact h
  | succ fuel ih =>
      rw [decimalPlaceFrom]
      split
      · exact h
      · next hbelow =>
          refine ih ?_
          rw [belowPower10_iff hden, not_lt] at hbelow
          rwa [add_sub_cancel_right]

/-! ### Grids -/

section Choice

variable {value step below above : Nat} {closed : Bool}

/-- The number lies in the interval around a value. -/
def isInside (value below above : Nat) (closed : Bool) (x : Nat) : Bool :=
  if closed then value - below ≤ x && x ≤ value + above
  else value - below < x && x < value + above

/-- The multiple of a step that lies in the interval around a value, the nearer one
of two. -/
def multiple? (value step below above : Nat) (closed : Bool) : Option Nat :=
  let floor := value / step
  let ceiling := floor + 1
  match floor != 0 && isInside value below above closed (floor * step),
    isInside value below above closed (ceiling * step) with
  | true, true =>
    if value - floor * step < ceiling * step - value ||
        (value - floor * step == ceiling * step - value && floor % 2 == 0) then
      some floor
    else some ceiling
  | true, false => some floor
  | false, true => some ceiling
  | false, false => none

/-- What is chosen is a multiple other than zero and lies in the interval. -/
theorem multiple?_inside {point : Nat} (h : multiple? value step below above closed = some point) :
    0 < point ∧ isInside value below above closed (point * step) = true := by
  have hfloor : (value / step != 0 &&
      isInside value below above closed (value / step * step)) = true →
      0 < value / step ∧ isInside value below above closed (value / step * step) = true := by
    intro hf
    rw [Bool.and_eq_true, bne_iff_ne] at hf
    exact ⟨Nat.pos_of_ne_zero hf.1, hf.2⟩
  rw [multiple?] at h
  split at h
  · next hf hc =>
      split at h
      · rw [← Option.some.inj h]
        exact hfloor hf
      · rw [← Option.some.inj h]
        exact ⟨Nat.succ_pos _, hc⟩
  · next hf hc =>
      rw [← Option.some.inj h]
      exact hfloor hf
  · next hf hc =>
      rw [← Option.some.inj h]
      exact ⟨Nat.succ_pos _, hc⟩
  · cases h

/-- **A step that is shorter than the interval** has a multiple in it. -/
theorem isSome_multiple? (hstep : 0 < step) (hvalue : step ≤ value) (hlow : 0 < below)
    (hhigh : 0 < above) (hbelow : below ≤ value) (hshort : step < below + above) :
    (multiple? value step below above closed).isSome = true := by
  have hfull : value / step ≠ 0 := (Nat.div_pos hvalue hstep).ne'
  have hfloor := Nat.div_mul_le_self value step
  have hceiling : value < (value / step + 1) * step :=
    Nat.lt_mul_of_div_lt (Nat.lt_succ_self _) hstep
  have hnext : (value / step + 1) * step = value / step * step + step := Nat.succ_mul _ _
  -- If neither neighbour were inside, the interval would fit between them.
  have hone : isInside value below above closed (value / step * step) = true ∨
      isInside value below above closed ((value / step + 1) * step) = true := by
    unfold isInside
    cases closed <;>
      simp only [Bool.false_eq_true, if_false, if_true, Bool.and_eq_true, decide_eq_true_eq] <;>
      omega
  rw [multiple?]
  split
  · split <;> rfl
  · rfl
  · rfl
  · next hf hc =>
      rcases hone with hin | hin
      · rw [hin, Bool.and_true, bne_eq_false_iff_eq] at hf
        exact absurd hf hfull
      · rw [hin] at hc
        cases hc

end Choice

/-- A grid in whole numbers: a step of the grid, and the common denominator of all its
numbers beside the number's own. -/
theorem exists_grid {den : Nat} (hden : 0 < den) (place : Int) :
    ∃ step factor : Nat, 0 < step ∧ 0 < factor ∧ (step : ℚ) / factor = den * 10 ^ place ∧
      ∀ num quarter below above closed, gridPoint? num den quarter below above closed place =
        multiple? (num * factor) step (below * quarter * factor) (above * quarter * factor)
          closed := by
  by_cases hp : 0 ≤ place
  · refine ⟨den * tenTo place.toNat, 1, Nat.mul_pos hden (tenTo_pos _), Nat.one_pos, ?_, ?_⟩
    · push_cast
      rw [tenTo_eq, Int.toNat_of_nonneg hp, div_one]
    · intro num quarter below above closed
      rw [gridPoint?, if_pos hp]
      rfl
  · refine ⟨den, tenTo (-place).toNat, hden, tenTo_pos _, ?_, ?_⟩
    · have hpow : (10 : ℚ) ^ place = (tenTo (-place).toNat : ℚ)⁻¹ := by
        rw [tenTo_eq, Int.toNat_of_nonneg (by omega), zpow_neg, inv_inv]
      rw [hpow, div_eq_mul_inv]
    · intro num quarter below above closed
      rw [gridPoint?, if_neg hp]
      rfl

/-! ### The grids of a double -/

section Doubles

variable {significand quarter den : Nat} {exponent : Int}

/-- The widths of a double's interval, in quarters of its last place. -/
theorem roundingHalfWidths_spec (significand : Nat) (exponent : Int) :
    1 ≤ (roundingHalfWidths significand exponent).1 ∧
      (roundingHalfWidths significand exponent).1 ≤ 2 ∧
      (roundingHalfWidths significand exponent).2 = 2 ∧
      ((roundingHalfWidths significand exponent).1 = 1 → significand = 2 ^ 52) := by
  rw [roundingHalfWidths]
  split
  · next h => exact ⟨le_refl _, by decide, rfl, fun _ => h.1⟩
  · exact ⟨by decide, le_refl _, rfl, fun h => absurd h (by decide)⟩

/-- A point of the grid is inside the interval in whole numbers exactly if it is
rounded to the double. -/
theorem isInside_iff_rounds {step factor point : Nat} {digit : ℚ}
    (hsignificand : 0 < significand) (hunit : 0 < factor * quarter)
    (hpoint : ((point * step : Nat) : ℚ) =
      4 * (digit / 2 ^ exponent) * ((factor * quarter : Nat) : ℚ)) :
    isInside (significand * 4 * quarter * factor)
        ((roundingHalfWidths significand exponent).1 * quarter * factor)
        ((roundingHalfWidths significand exponent).2 * quarter * factor)
        (significand % 2 == 0) (point * step) = true ↔
      Rounds significand exponent digit := by
  obtain ⟨-, hwidth, -, -⟩ := roundingHalfWidths_spec significand exponent
  have hu : (0 : ℚ) < ((factor * quarter : Nat) : ℚ) := by exact_mod_cast hunit
  have hvalue : significand * 4 * quarter * factor = significand * 4 * (factor * quarter) := by
    ring
  have hbelow : (roundingHalfWidths significand exponent).1 * quarter * factor =
      (roundingHalfWidths significand exponent).1 * (factor * quarter) := by
    ring
  have habove : (roundingHalfWidths significand exponent).2 * quarter * factor =
      (roundingHalfWidths significand exponent).2 * (factor * quarter) := by
    ring
  have hsub : significand * 4 * (factor * quarter) -
      (roundingHalfWidths significand exponent).1 * (factor * quarter) =
        (significand * 4 - (roundingHalfWidths significand exponent).1) * (factor * quarter) :=
    (Nat.sub_mul _ _ _).symm
  have hcast : ((significand * 4 - (roundingHalfWidths significand exponent).1 : Nat) : ℚ) =
      significand * 4 - (roundingHalfWidths significand exponent).1 := by
    rw [Nat.cast_sub (by omega)]
    push_cast
    ring
  rw [isInside, hvalue, hbelow, habove, hsub, ← Nat.add_mul, Rounds]
  generalize hunitEq : factor * quarter = unit at *
  by_cases heven : significand % 2 = 0
  · simp only [heven, beq_self_eq_true, if_true, Bool.and_eq_true, decide_eq_true_eq]
    rw [← Nat.cast_le (α := ℚ), ← Nat.cast_le (α := ℚ), hpoint]
    push_cast [hcast]
    rw [mul_le_mul_iff_left₀ hu, mul_le_mul_iff_left₀ hu]
    constructor
    · intro h
      constructor <;> linarith [h.1, h.2]
    · intro h
      constructor <;> linarith [h.1, h.2]
  · have hodd : (significand % 2 == 0) = false := beq_eq_false_iff_ne.mpr heven
    simp only [hodd, heven, Bool.false_eq_true, if_false, Bool.and_eq_true, decide_eq_true_eq]
    rw [← Nat.cast_lt (α := ℚ), ← Nat.cast_lt (α := ℚ), hpoint]
    push_cast [hcast]
    rw [mul_lt_mul_iff_left₀ hu, mul_lt_mul_iff_left₀ hu]
    constructor
    · intro h
      constructor <;> linarith [h.1, h.2]
    · intro h
      constructor <;> linarith [h.1, h.2]

/-- **What is found on a grid** is rounded to the double. -/
theorem gridPoint?_rounds (hsignificand : 0 < significand) (hden : 0 < den)
    (hquarter : 0 < quarter) (hvalue : (quarter : ℚ) / den = 2 ^ (exponent - 2)) {place : Int}
    {point : Nat}
    (h : gridPoint? (significand * 4 * quarter) den quarter
      (roundingHalfWidths significand exponent).1 (roundingHalfWidths significand exponent).2
      (significand % 2 == 0) place = some point) :
    0 < point ∧ Rounds significand exponent (point * 10 ^ place) := by
  obtain ⟨step, factor, hstep, hfactor, hgrid, hpoint⟩ := exists_grid hden place
  rw [hpoint] at h
  obtain ⟨hpos, hinside⟩ := multiple?_inside h
  have hd : (den : ℚ) ≠ 0 := by positivity
  have hf : (factor : ℚ) ≠ 0 := by positivity
  refine ⟨hpos, (isInside_iff_rounds hsignificand (Nat.mul_pos hfactor hquarter) ?_).mp hinside⟩
  rw [div_eq_iff hf] at hgrid
  rw [div_eq_iff hd, zpow_sub₀ (by norm_num)] at hvalue
  push_cast
  rw [hgrid, hvalue]
  have htwo := (two_zpow_pos exponent).ne'
  field_simp
  norm_num

/-- **A grid of seventeen digits** has a point that is rounded to the double. -/
theorem isSome_gridPoint? (hsignificand : 0 < significand) (hbelow : significand < 2 ^ 53)
    (hden : 0 < den) (hquarter : 0 < quarter)
    (hvalue : (quarter : ℚ) / den = 2 ^ (exponent - 2)) {place : Int}
    (hfine : (10 : ℚ) ^ (place + 16) ≤ significand * 2 ^ exponent) :
    (gridPoint? (significand * 4 * quarter) den quarter
      (roundingHalfWidths significand exponent).1 (roundingHalfWidths significand exponent).2
      (significand % 2 == 0) place).isSome = true := by
  obtain ⟨step, factor, hstep, hfactor, hgrid, hpoint⟩ := exists_grid hden place
  obtain ⟨hone, htwo, hhigh, hspecial⟩ := roundingHalfWidths_spec significand exponent
  have hd : (0 : ℚ) < den := by exact_mod_cast hden
  have hf : (0 : ℚ) < factor := by exact_mod_cast hfactor
  have hu : (0 : ℚ) < den * factor := mul_pos hd hf
  have he := two_zpow_pos exponent
  rw [div_eq_iff hf.ne'] at hgrid
  have hplace : (quarter : ℚ) = 2 ^ exponent / 4 * den := by
    rw [div_eq_iff hd.ne', zpow_sub₀ (by norm_num)] at hvalue
    rw [hvalue]
    norm_num
  rw [zpow_add₀ (by norm_num), show (10 : ℚ) ^ (16 : Int) = 10 ^ 16 by norm_num] at hfine
  have hm : (significand : ℚ) ≤ 2 ^ 53 := by exact_mod_cast hbelow.le
  -- The steps of the grid are shorter than the interval is wide.
  have hshort : (10 : ℚ) ^ place <
      ((roundingHalfWidths significand exponent).1 + 2) / 4 * 2 ^ exponent := by
    rcases hone.eq_or_lt with heq | hlt
    · have hsignificandEq : (significand : ℚ) = 2 ^ 52 := by exact_mod_cast hspecial heq.symm
      rw [hsignificandEq] at hfine
      rw [← heq]
      norm_num at hfine ⊢
      linarith
    · have heq : (roundingHalfWidths significand exponent).1 = 2 := by omega
      have hbound := mul_le_mul_of_nonneg_right hm he.le
      rw [heq]
      norm_num at hfine hbound ⊢
      linarith
  have hsmall : (10 : ℚ) ^ place ≤ significand * 2 ^ exponent := by
    have hten := ten_zpow_pos place
    norm_num at hfine
    linarith
  rw [hpoint]
  refine isSome_multiple? hstep ?_ ?_ ?_ ?_ ?_
  · rw [← Nat.cast_le (α := ℚ)]
    push_cast
    rw [hgrid, hplace]
    have := mul_le_mul_of_nonneg_right hsmall hu.le
    linarith
  · exact Nat.mul_pos (Nat.mul_pos hone hquarter) hfactor
  · rw [hhigh]
    exact Nat.mul_pos (Nat.mul_pos Nat.two_pos hquarter) hfactor
  · exact Nat.mul_le_mul_right _ (Nat.mul_le_mul_right _ (by omega))
  · rw [← Nat.cast_lt (α := ℚ), hhigh]
    push_cast
    rw [hgrid, hplace]
    have := mul_lt_mul_of_pos_right hshort hu
    linarith

/-- The search among grids ends at one of those that it tries. -/
theorem shortestFrom_spec {point? : Int → Option Nat} {top : Int} (fuel : Nat) {count : Int}
    (h : (point? (top - (count + fuel))).isSome = true) :
    ∃ digits place, shortestFrom point? top fuel count = ⟨digits, place⟩ ∧
      point? place = some digits := by
  induction fuel generalizing count with
  | zero =>
      obtain ⟨digits, hd⟩ := Option.isSome_iff_exists.mp h
      rw [Nat.cast_zero, add_zero] at hd
      exact ⟨digits, top - count, by rw [shortestFrom, hd]; rfl, hd⟩
  | succ fuel ih =>
      cases hfirst : point? (top - count) with
      | some digits => exact ⟨digits, top - count, by rw [shortestFrom, hfirst], hfirst⟩
      | none =>
          rw [shortestFrom, hfirst]
          refine ih ?_
          rwa [add_assoc, add_comm (1 : Int), ← Nat.cast_succ]

/-- The search for the shortest decimal, where `quarter / den` is a quarter of the last
binary place. -/
theorem exists_shortest_eq (significand : Nat) (exponent : Int) :
    ∃ quarter den : Nat, 0 < quarter ∧ 0 < den ∧ (quarter : ℚ) / den = 2 ^ (exponent - 2) ∧
      shortest significand exponent =
        shortestFrom (gridPoint? (significand * 4 * quarter) den quarter
          (roundingHalfWidths significand exponent).1 (roundingHalfWidths significand exponent).2
          (significand % 2 == 0)) (decimalPlace (significand * 4 * quarter) den) 16 1 := by
  obtain ⟨hnum, hden, hquarter, hpos, hvalue⟩ := power2_spec (significand * 4) (exponent - 2)
  have hpower : power2 (significand * 4) (exponent - 2) =
      (significand * 4 * (power2 1 (exponent - 2)).1, (power2 1 (exponent - 2)).2) :=
    Prod.ext hnum hden
  refine ⟨_, _, hquarter, hpos, hvalue, ?_⟩
  rw [shortest, hpower]

/-- The place that the search begins at is not above the number. -/
theorem decimalPlace_spec (hproper : Proper significand exponent) (hsignificand : 0 < significand)
    {num : Nat} (hnum : 0 < num) (hden : 0 < den)
    (hvalue : (num : ℚ) / den = significand * 2 ^ exponent) :
    (10 : ℚ) ^ (decimalPlace num den - 1) ≤ significand * 2 ^ exponent := by
  have hscaled : (num : ℚ) / den / 2 ^ exponent = significand := by
    rw [hvalue, mul_div_cancel_right₀ _ (two_zpow_pos exponent).ne']
  have hlower : exponent + 0 ≤ magnitude num den := by
    refine le_magnitude hnum hden ?_
    rw [hscaled, zpow_zero]
    exact_mod_cast hsignificand
  have hupper : magnitude num den < exponent + 53 := by
    refine magnitude_lt hnum hden ?_
    rw [hscaled]
    exact_mod_cast hproper.below
  have hleast := hproper.least
  have hgreatest := hproper.greatest
  rw [leastExponent] at hleast
  rw [greatestExponent] at hgreatest
  rw [← hvalue]
  refine decimalPlaceFrom_spec hden 8 ?_
  exact (ten_zpow_le (by omega) (by omega)).trans (magnitude_spec hnum hden).1

/-- **The shortest decimal** of a proper double is rounded to that double. -/
theorem shortest_rounds (hproper : Proper significand exponent) (hsignificand : 0 < significand) :
    0 < (shortest significand exponent).digits ∧
      Rounds significand exponent
        ((shortest significand exponent).digits * 10 ^ (shortest significand exponent).place) := by
  obtain ⟨quarter, den, hquarter, hden, hvalue, heq⟩ := exists_shortest_eq significand exponent
  have hnum : 0 < significand * 4 * quarter := Nat.mul_pos (by omega) hquarter
  have hreal : ((significand * 4 * quarter : Nat) : ℚ) / den = significand * 2 ^ exponent := by
    push_cast
    rw [mul_div_assoc, hvalue, zpow_sub₀ (by norm_num)]
    norm_num
    ring
  have hfine : (10 : ℚ) ^ (decimalPlace (significand * 4 * quarter) den - (1 + (16 : Nat)) + 16) ≤
      significand * 2 ^ exponent := by
    refine le_trans (le_of_eq ?_) (decimalPlace_spec hproper hsignificand hnum hden hreal)
    congr 1
    omega
  obtain ⟨digits, place, hshortest, hfound⟩ := shortestFrom_spec 16
    (isSome_gridPoint? hsignificand hproper.below hden hquarter hvalue hfine)
  rw [heq, hshortest]
  exact gridPoint?_rounds hsignificand hden hquarter hvalue hfound

end Doubles

end ContentCatalog.Double
