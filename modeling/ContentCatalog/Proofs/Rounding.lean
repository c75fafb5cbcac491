import ContentCatalog.Number.Shortest
import Mathlib.Algebra.Order.Field.Power
import Mathlib.Algebra.Order.Ring.Rat
import Mathlib.Tactic.FieldSimp
import Mathlib.Tactic.Linarith
import Mathlib.Tactic.Positivity
import Mathlib.Tactic.Ring

/-!
# Rounding to a double

A positive rational number that lies in the interval of a proper double is rounded
to that double.  The interval reaches half way to the neighbours of the double; its
ends belong to it if the significand is even.

* `magnitude_spec` : the greatest power of two that is not above a quotient;
* `roundedQuotient_eq` : the nearest whole number to a quotient;
* `ofRatio_of_rounds` : the statement about doubles;
* `ofRatio_of_great`, `ofRatio_of_small` : what lies outside the range of doubles.
-/

namespace ContentCatalog.Double

/-- The parts of a double in the form that rounding gives. -/
structure Proper (significand : Nat) (exponent : Int) : Prop where
  below : significand < 2 ^ 53
  least : leastExponent ≤ exponent
  greatest : exponent ≤ greatestExponent
  normal : leastExponent < exponent → 2 ^ 52 ≤ significand

/-- The double has the form that rounding gives. -/
def IsProper : Double → Prop
  | .finite _ significand exponent => Proper significand exponent
  | _ => True

/-- The quotients that are rounded to a double. -/
def Rounds (significand : Nat) (exponent : Int) (q : ℚ) : Prop :=
  let widths := roundingHalfWidths significand exponent
  let low : ℚ := significand - widths.1 / 4
  let high : ℚ := significand + widths.2 / 4
  let scaled := q / 2 ^ exponent
  if significand % 2 = 0 then low ≤ scaled ∧ scaled ≤ high else low < scaled ∧ scaled < high

/-! ### Powers of two -/

/-- Powers of two are those of the rational numbers. -/
theorem twoTo_eq (n : Nat) : (twoTo n : ℚ) = 2 ^ (n : Int) := by
  rw [twoTo, zpow_natCast]
  exact Nat.cast_pow 2 n

theorem two_zpow_pos (e : Int) : (0 : ℚ) < 2 ^ e :=
  zpow_pos (by norm_num) e

theorem two_zpow_lt {a b : Int} : (2 : ℚ) ^ a < 2 ^ b ↔ a < b :=
  zpow_lt_zpow_iff_right₀ (by norm_num)

/-! ### Quotients -/

section Quotients

variable {num den : Nat}

/-- Scaling divides by a power of two. -/
theorem scaled_spec (hnum : 0 < num) (hden : 0 < den) (e : Int) :
    0 < (scaled num den e).1 ∧ 0 < (scaled num den e).2 ∧
      ((scaled num den e).1 : ℚ) / (scaled num den e).2 = num / den / 2 ^ e := by
  have hd : (den : ℚ) ≠ 0 := by positivity
  rw [scaled]
  split
  · next he =>
      have hpow : (2 : ℚ) ^ e = twoTo e.toNat := by
        rw [twoTo_eq, Int.toNat_of_nonneg he]
      have htwo := twoTo_pos e.toNat
      refine ⟨hnum, Nat.mul_pos hden htwo, ?_⟩
      rw [hpow]
      push_cast
      rw [div_div]
  · next he =>
      have hpow : (2 : ℚ) ^ e = (twoTo (-e).toNat : ℚ)⁻¹ := by
        rw [twoTo_eq, Int.toNat_of_nonneg (by omega), zpow_neg, inv_inv]
      have htwo := twoTo_pos (-e).toNat
      refine ⟨Nat.mul_pos hnum htwo, hden, ?_⟩
      rw [hpow]
      push_cast
      field_simp

/-- **The magnitude of a quotient** is the greatest power of two that is not above. -/
theorem magnitude_spec (hnum : 0 < num) (hden : 0 < den) :
    (2 : ℚ) ^ magnitude num den ≤ num / den ∧ (num : ℚ) / den < 2 ^ (magnitude num den + 1) := by
  have hd : (0 : ℚ) < den := by positivity
  have hlog : ∀ n : Nat, 0 < n → (2 : ℚ) ^ (Nat.log2 n : Int) ≤ n ∧
      (n : ℚ) < 2 ^ ((Nat.log2 n : Int) + 1) := by
    intro n hn
    refine ⟨?_, ?_⟩
    · rw [zpow_natCast]
      exact_mod_cast Nat.log2_self_le hn.ne'
    · rw [← Nat.cast_succ, zpow_natCast]
      exact_mod_cast Nat.lt_log2_self
  obtain ⟨hnlow, hnhigh⟩ := hlog num hnum
  obtain ⟨hdlow, hdhigh⟩ := hlog den hden
  -- The two logarithms leave one of two powers.
  have hguess : (2 : ℚ) ^ ((Nat.log2 num : Int) - Nat.log2 den - 1) ≤ num / den ∧
      (num : ℚ) / den < 2 ^ ((Nat.log2 num : Int) - Nat.log2 den + 1) := by
    refine ⟨?_, ?_⟩
    · rw [le_div_iff₀ hd]
      calc (2 : ℚ) ^ ((Nat.log2 num : Int) - Nat.log2 den - 1) * den
          ≤ 2 ^ ((Nat.log2 num : Int) - Nat.log2 den - 1) * 2 ^ ((Nat.log2 den : Int) + 1) :=
            mul_le_mul_of_nonneg_left hdhigh.le (two_zpow_pos _).le
        _ = 2 ^ (Nat.log2 num : Int) := by
            rw [← zpow_add₀ (by norm_num)]
            congr 1
            omega
        _ ≤ num := hnlow
    · rw [div_lt_iff₀ hd]
      calc (num : ℚ) < 2 ^ ((Nat.log2 num : Int) + 1) := hnhigh
        _ = 2 ^ ((Nat.log2 num : Int) - Nat.log2 den + 1) * 2 ^ (Nat.log2 den : Int) := by
            rw [← zpow_add₀ (by norm_num)]
            congr 1
            omega
        _ ≤ 2 ^ ((Nat.log2 num : Int) - Nat.log2 den + 1) * den :=
            mul_le_mul_of_nonneg_left hdlow (two_zpow_pos _).le
  obtain ⟨-, hpos, hscaled⟩ := scaled_spec hnum hden ((Nat.log2 num : Int) - Nat.log2 den)
  have hspos : (0 : ℚ) < (scaled num den ((Nat.log2 num : Int) - Nat.log2 den)).2 := by
    exact_mod_cast hpos
  have hone : (scaled num den ((Nat.log2 num : Int) - Nat.log2 den)).1 <
      (scaled num den ((Nat.log2 num : Int) - Nat.log2 den)).2 ↔
        (num : ℚ) / den < 2 ^ ((Nat.log2 num : Int) - Nat.log2 den) := by
    rw [← Nat.cast_lt (α := ℚ), ← div_lt_one hspos, hscaled, div_lt_one (two_zpow_pos _)]
  rw [magnitude]
  simp only
  split
  · next hlt =>
      refine ⟨hguess.1, ?_⟩
      rw [sub_add_cancel]
      exact hone.mp hlt
  · next hge => exact ⟨not_lt.mp fun h => hge (hone.mpr h), hguess.2⟩

/-- **The nearest whole number** to a quotient, of two that are as near the even one. -/
theorem roundedQuotient_eq (hden : 0 < den) {k : Nat}
    (h : if k % 2 = 0 then (k : ℚ) - 1 / 2 ≤ num / den ∧ (num : ℚ) / den ≤ k + 1 / 2
      else (k : ℚ) - 1 / 2 < num / den ∧ (num : ℚ) / den < k + 1 / 2) :
    roundedQuotient num den = k := by
  have hd : (0 : ℚ) < den := by positivity
  have hle : (k : ℚ) - 1 / 2 ≤ num / den ∧ (num : ℚ) / den ≤ k + 1 / 2 := by
    split at h
    · exact h
    · exact ⟨h.1.le, h.2.le⟩
  rw [le_div_iff₀ hd, div_le_iff₀ hd] at hle
  have hlow : 2 * (k * den) ≤ 2 * num + den := by
    have : (2 * (k * den) : ℚ) ≤ 2 * num + den := by linarith [hle.1]
    exact_mod_cast this
  have hhigh : 2 * num ≤ 2 * (k * den) + den := by
    have : (2 * num : ℚ) ≤ 2 * (k * den) + den := by linarith [hle.2]
    exact_mod_cast this
  have hodd : k % 2 ≠ 0 → 2 * (k * den) < 2 * num + den ∧ 2 * num < 2 * (k * den) + den := by
    intro hk
    rw [if_neg hk, lt_div_iff₀ hd, div_lt_iff₀ hd] at h
    have hl : (2 * (k * den) : ℚ) < 2 * num + den := by linarith [h.1]
    have hh : (2 * num : ℚ) < 2 * (k * den) + den := by linarith [h.2]
    exact ⟨by exact_mod_cast hl, by exact_mod_cast hh⟩
  have hdiv := Nat.div_add_mod' num den
  have hmod := Nat.mod_lt num hden
  -- The number is the quotient or the next one.
  have hk : k = num / den ∨ k = num / den + 1 := by
    have hnot : ¬ k + 1 ≤ num / den := by
      intro hlt
      have hmul := Nat.mul_le_mul_right den hlt
      rw [Nat.add_mul] at hmul
      omega
    have hnot' : ¬ num / den + 2 ≤ k := by
      intro hlt
      have hmul := Nat.mul_le_mul_right den hlt
      rw [Nat.add_mul] at hmul
      omega
    omega
  rw [roundedQuotient]
  rcases hk with heq | heq
  · rw [← heq] at hdiv ⊢
    split
    · rfl
    · rw [if_neg (by omega), if_pos]
      by_contra hk
      have := hodd hk
      omega
  · rw [heq, Nat.add_mul] at hlow hodd
    rw [if_neg (by omega), heq]
    split
    · rfl
    · rw [if_neg]
      intro heven
      have := hodd (by omega)
      omega

/-! ### Doubles -/

/-- The double from the place and the significand that rounding finds. -/
theorem ofRatio_of_significand (negative : Bool) (hnum : 0 < num) {significand : Nat}
    {exponent : Int} (he : max (magnitude num den - 52) leastExponent = exponent)
    (hs : roundedQuotient (scaled num den exponent).1 (scaled num den exponent).2 = significand)
    (hbelow : significand < 2 ^ 53) (hgreatest : exponent ≤ greatestExponent) :
    ofRatio negative num den = .finite negative significand exponent := by
  have hcarry : significand ≠ twoTo 53 := hbelow.ne
  rw [ofRatio, if_neg hnum.ne']
  simp only [he, hs, if_neg hcarry, if_neg (not_lt.mpr hgreatest)]

/-- Where the significand is rounded up to a further place, the exponent grows. -/
theorem ofRatio_of_carry (negative : Bool) (hnum : 0 < num) {exponent : Int}
    (he : max (magnitude num den - 52) leastExponent = exponent)
    (hs : roundedQuotient (scaled num den exponent).1 (scaled num den exponent).2 = 2 ^ 53)
    (hgreatest : exponent + 1 ≤ greatestExponent) :
    ofRatio negative num den = .finite negative (2 ^ 52) (exponent + 1) := by
  have hcarry : 2 ^ 53 = twoTo 53 := rfl
  rw [ofRatio, if_neg hnum.ne']
  simp only [he, hs, if_pos hcarry, if_neg (not_lt.mpr hgreatest)]
  rfl

/-- Two bounds in units of the last place bound the magnitude. -/
theorem magnitude_lt {e k : Int} (hnum : 0 < num) (hden : 0 < den)
    (h : (num : ℚ) / den / 2 ^ e < 2 ^ k) : magnitude num den < e + k := by
  obtain ⟨hlow, -⟩ := magnitude_spec hnum hden
  rw [div_lt_iff₀ (two_zpow_pos e), ← zpow_add₀ (by norm_num), add_comm] at h
  exact two_zpow_lt.mp (hlow.trans_lt h)

/-- A quotient that reaches a power of two has at least its magnitude. -/
theorem le_magnitude {e k : Int} (hnum : 0 < num) (hden : 0 < den)
    (h : 2 ^ k ≤ (num : ℚ) / den / 2 ^ e) : e + k ≤ magnitude num den := by
  obtain ⟨-, hhigh⟩ := magnitude_spec hnum hden
  rw [le_div_iff₀ (two_zpow_pos e), ← zpow_add₀ (by norm_num), add_comm] at h
  have hlt := two_zpow_lt.mp (h.trans_lt hhigh)
  omega

/-- Half a place around the significand, unless the double is a power of two and the
quotient lies below it. -/
theorem near_of_rounds {significand : Nat} {exponent : Int} {q : ℚ}
    (h : Rounds significand exponent q)
    (hside : significand = 2 ^ 52 → leastExponent < exponent → 2 ^ 52 ≤ q / 2 ^ exponent) :
    if significand % 2 = 0 then
      (significand : ℚ) - 1 / 2 ≤ q / 2 ^ exponent ∧ q / 2 ^ exponent ≤ significand + 1 / 2
    else
      (significand : ℚ) - 1 / 2 < q / 2 ^ exponent ∧ q / 2 ^ exponent < significand + 1 / 2 := by
  rw [Rounds, roundingHalfWidths] at h
  by_cases hspecial : significand = twoTo 52 ∧ leastExponent < exponent
  · have hq := hside hspecial.1 hspecial.2
    have heven : significand % 2 = 0 := by
      rw [hspecial.1]
      decide
    have hvalue : (significand : ℚ) = 2 ^ 52 := by
      rw [hspecial.1, twoTo_eq]
      norm_num
    rw [if_pos hspecial, if_pos heven] at h
    rw [if_pos heven]
    simp only [hvalue] at h ⊢
    norm_num at h hq ⊢
    constructor <;> linarith [h.2]
  · rw [if_neg hspecial] at h
    norm_num at h ⊢
    exact h

/-- **A quotient in the interval of a double** is rounded to that double. -/
theorem ofRatio_of_rounds (negative : Bool) {significand : Nat} {exponent : Int}
    (hproper : Proper significand exponent) (hnum : 0 < num) (hden : 0 < den)
    (h : Rounds significand exponent (num / den)) :
    ofRatio negative num den = .finite negative significand exponent := by
  by_cases hside : significand = 2 ^ 52 → leastExponent < exponent →
      2 ^ 52 ≤ (num : ℚ) / den / 2 ^ exponent
  · have hnear := near_of_rounds h hside
    have hle : (significand : ℚ) - 1 / 2 ≤ num / den / 2 ^ exponent ∧
        (num : ℚ) / den / 2 ^ exponent ≤ significand + 1 / 2 := by
      split at hnear
      · exact hnear
      · exact ⟨hnear.1.le, hnear.2.le⟩
    have hbelow : (significand : ℚ) + 1 ≤ 2 ^ 53 := by exact_mod_cast hproper.below
    have hupper : magnitude num den < exponent + 53 := by
      refine magnitude_lt hnum hden (hle.2.trans_lt ?_)
      rw [show (53 : Int) = (53 : Nat) from rfl, zpow_natCast]
      linarith
    have hlower : leastExponent < exponent → exponent + 52 ≤ magnitude num den := by
      intro hleast
      refine le_magnitude hnum hden ?_
      rw [show (52 : Int) = (52 : Nat) from rfl, zpow_natCast]
      rcases (hproper.normal hleast).eq_or_lt with heq | hlt
      · exact hside heq.symm hleast
      · have hsucc : (2 : ℚ) ^ 52 + 1 ≤ significand := by exact_mod_cast hlt
        linarith [hle.1]
    refine ofRatio_of_significand negative hnum ?_ ?_ hproper.below hproper.greatest
    · have hleast := hproper.least
      rcases hleast.eq_or_lt with heq | hlt
      · omega
      · have := hlower hlt
        omega
    · obtain ⟨-, hpos, hscaled⟩ := scaled_spec hnum hden exponent
      refine roundedQuotient_eq hpos ?_
      rw [hscaled]
      exact hnear
  · -- Below a power of two the places are half as wide, and the significand is
    -- rounded up to it.
    push Not at hside
    obtain ⟨heq, hleast, hlt⟩ := hside
    have heven : significand % 2 = 0 := by
      rw [heq]
      decide
    have hwidths : roundingHalfWidths significand exponent = (1, 2) := by
      rw [roundingHalfWidths, if_pos ⟨heq, hleast⟩]
    rw [Rounds, if_pos heven, hwidths, heq] at h
    obtain ⟨hlow, -⟩ := h
    push_cast at hlow
    have hhalf : (num : ℚ) / den / 2 ^ (exponent - 1) = 2 * (num / den / 2 ^ exponent) := by
      rw [zpow_sub_one₀ (by norm_num)]
      field_simp
    have hmagnitude : max (magnitude num den - 52) leastExponent = exponent - 1 := by
      have hupper : magnitude num den < exponent + 52 := by
        refine magnitude_lt hnum hden ?_
        rw [show (52 : Int) = (52 : Nat) from rfl, zpow_natCast]
        exact hlt
      have hlower : exponent + 51 ≤ magnitude num den := by
        refine le_magnitude hnum hden ?_
        rw [show (51 : Int) = (51 : Nat) from rfl, zpow_natCast]
        linarith
      omega
    have hgreatest := hproper.greatest
    have hcarry := ofRatio_of_carry negative hnum hmagnitude (by
      obtain ⟨-, hpos, hscaled⟩ := scaled_spec hnum hden (exponent - 1)
      refine roundedQuotient_eq hpos ?_
      rw [hscaled, hhalf, if_pos (by decide)]
      push_cast
      constructor <;> linarith) (by omega)
    rw [hcarry, heq, sub_add_cancel]

/-- **A quotient above all doubles** is rounded to infinity. -/
theorem ofRatio_of_great (negative : Bool) (hnum : 0 < num) (hden : 0 < den)
    (h : (2 : ℚ) ^ (1025 : Int) ≤ num / den) : ofRatio negative num den = .infinite negative := by
  have hplace : 0 + 1025 ≤ magnitude num den := by
    apply le_magnitude hnum hden
    rwa [zpow_zero, div_one]
  have hexponent : max (magnitude num den - 52) leastExponent = magnitude num den - 52 := by
    rw [leastExponent]
    omega
  have hbeyond : greatestExponent < magnitude num den - 52 := by
    rw [greatestExponent]
    omega
  rw [ofRatio, if_neg hnum.ne']
  simp only [hexponent]
  apply if_pos
  split
  · exact hbeyond.trans (lt_add_one _)
  · exact hbeyond

/-- **A quotient below half of all doubles** is rounded to zero. -/
theorem ofRatio_of_small (negative : Bool) (hnum : 0 < num) (hden : 0 < den)
    (h : (num : ℚ) / den < 2 ^ (-1076 : Int)) :
    ofRatio negative num den = .finite negative 0 leastExponent := by
  have hhalf : (num : ℚ) / den / 2 ^ leastExponent < 2 ^ (-2 : Int) := by
    rw [div_lt_iff₀ (two_zpow_pos _), ← zpow_add₀ (by norm_num)]
    exact h
  have hplace := magnitude_lt hnum hden hhalf
  obtain ⟨hn, hd, hscaled⟩ := scaled_spec hnum hden leastExponent
  apply ofRatio_of_significand negative hnum
  · rw [leastExponent] at hplace ⊢
    omega
  · apply roundedQuotient_eq hd
    rw [hscaled, if_pos (by decide), Nat.cast_zero]
    have hpositive : (0 : ℚ) ≤ num / den / 2 ^ leastExponent :=
      div_nonneg (by positivity) (two_zpow_pos _).le
    norm_num at hhalf
    constructor <;> linarith
  · decide
  · decide

end Quotients

end ContentCatalog.Double
