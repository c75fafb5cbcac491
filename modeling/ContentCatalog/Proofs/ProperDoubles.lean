import ContentCatalog.Proofs.Rounding
import ContentCatalog.Yaml.Scalar

/-!
# Doubles of documents

Every double that a document holds comes out of a rounding, or has only lost its sign since.  So
it has the form that rounding gives: its significand fills the places that its exponent leaves.

* `isProper_ofRatio` : what a quotient is rounded to;
* `isProper_add` : sums;
* `isProper_readDecimal` : decimal fractions;
* `isProper_of_float` : fractions of documents, those in base sixty included.
-/

namespace ContentCatalog

namespace Double

variable {num den : Nat}

/-- The nearest whole number is the quotient or the next one. -/
theorem roundedQuotient_bounds (num den : Nat) :
    num / den ≤ roundedQuotient num den ∧ roundedQuotient num den ≤ num / den + 1 := by
  rw [roundedQuotient]
  split
  · omega
  · split
    · omega
    · split <;> omega

/-- Bounds of a quotient are bounds of its whole part. -/
theorem div_lt_of_scaled_lt (hden : 0 < den) {k : Nat} (h : (num : ℚ) / den < k) :
    num / den < k := by
  have hd : (0 : ℚ) < den := by exact_mod_cast hden
  rw [div_lt_iff₀ hd] at h
  rw [Nat.div_lt_iff_lt_mul hden]
  exact_mod_cast h

/-- What is below a quotient is below it without its remainder. -/
theorem le_div_of_le_scaled (hden : 0 < den) {k : Nat} (h : (k : ℚ) ≤ num / den) :
    k ≤ num / den := by
  have hd : (0 : ℚ) < den := by exact_mod_cast hden
  rw [le_div_iff₀ hd] at h
  rw [Nat.le_div_iff_mul_le hden]
  exact_mod_cast h

/-- The significand that is found at the place of a quotient has at most one bit too many, and no
bit too few unless the place is the least one. -/
theorem significand_bounds (hnum : 0 < num) (hden : 0 < den) {exponent : Int}
    (he : exponent = max (magnitude num den - 52) leastExponent) :
    roundedQuotient (scaled num den exponent).1 (scaled num den exponent).2 ≤ 2 ^ 53 ∧
      (leastExponent < exponent →
        2 ^ 52 ≤ roundedQuotient (scaled num den exponent).1 (scaled num den exponent).2) := by
  obtain ⟨hlow, hhigh⟩ := magnitude_spec hnum hden
  obtain ⟨-, hd, hscaled⟩ := scaled_spec hnum hden exponent
  obtain ⟨hfloor, hceiling⟩ :=
    roundedQuotient_bounds (scaled num den exponent).1 (scaled num den exponent).2
  have hpower := two_zpow_pos exponent
  constructor
  · have hbelow : (scaled num den exponent).1 / (scaled num den exponent).2 < 2 ^ 53 := by
      apply div_lt_of_scaled_lt hd
      rw [hscaled, div_lt_iff₀ hpower]
      calc (num : ℚ) / den < 2 ^ (magnitude num den + 1) := hhigh
        _ ≤ 2 ^ ((53 : Int) + exponent) := zpow_le_zpow_right₀ (by norm_num) (by omega)
        _ = ((2 ^ 53 : Nat) : ℚ) * 2 ^ exponent := by
          rw [zpow_add₀ (by norm_num)]
          norm_num
    omega
  · intro hleast
    have habove : 2 ^ 52 ≤ (scaled num den exponent).1 / (scaled num den exponent).2 := by
      apply le_div_of_le_scaled hd
      rw [hscaled, le_div_iff₀ hpower]
      calc ((2 ^ 52 : Nat) : ℚ) * 2 ^ exponent = 2 ^ ((52 : Int) + exponent) := by
            rw [zpow_add₀ (by norm_num)]
            norm_num
        _ ≤ 2 ^ magnitude num den := zpow_le_zpow_right₀ (by norm_num) (by omega)
        _ ≤ num / den := hlow
    omega

/-- The two zeros are proper doubles. -/
theorem isProper_zero (negative : Bool) : IsProper (.finite negative 0 leastExponent) :=
  ⟨by decide, le_refl _, by decide, fun h => absurd h (lt_irrefl _)⟩

/-- **What a quotient is rounded to** is proper. -/
theorem isProper_ofRatio (negative : Bool) (num : Nat) (hden : 0 < den) :
    (ofRatio negative num den).IsProper := by
  rw [ofRatio]
  split
  · exact isProper_zero negative
  · next hzero =>
      obtain ⟨hbelow, hnormal⟩ := significand_bounds (Nat.pos_of_ne_zero hzero) hden rfl
      have hleast : leastExponent ≤ max (magnitude num den - 52) leastExponent := le_max_right _ _
      simp only
      split
      · -- The carry makes the least significand of the next exponent.
        split
        · trivial
        · next hgreatest =>
            refine ⟨(by decide : twoTo 52 < 2 ^ 53), ?_, ?_, fun _ => Nat.le_refl _⟩
            · exact hleast.trans (lt_add_one _).le
            · exact not_lt.mp hgreatest
      · next hcarry =>
          split
          · trivial
          · next hgreatest =>
              exact ⟨lt_of_le_of_ne hbelow hcarry, hleast, not_lt.mp hgreatest, hnormal⟩

/-- So are whole numbers that are scaled by a power of two. -/
theorem isProper_ofScaled (negative : Bool) (significand : Nat) (exponent : Int) :
    (ofScaled negative significand exponent).IsProper := by
  rw [ofScaled]
  split
  · exact isProper_ofRatio negative _ Nat.one_pos
  · exact isProper_ofRatio negative _ (twoTo_pos _)

theorem isProper_neg {x : Double} (h : x.IsProper) : x.neg.IsProper := by
  cases x <;> exact h

theorem isProper_add (x y : Double) : (x.add y).IsProper := by
  cases x with
  | notNumber => trivial
  | infinite s =>
      cases y with
      | infinite t =>
          rw [add]
          split <;> trivial
      | _ => trivial
  | finite s m p =>
      cases y with
      | finite t n q =>
          have hrounded : ∀ sum : Int, IsProper (if sum = 0 then .finite (s && t) 0 leastExponent
              else ofScaled (sum < 0) sum.natAbs (min p q)) := by
            intro sum
            split
            · exact isProper_zero _
            · exact isProper_ofScaled _ _ _
          exact hrounded _
      | _ => trivial

end Double

/-! ### Fractions in texts -/

namespace Number

/-- A decimal number is a proper double. -/
theorem isProper_ofDecimal (negative : Bool) (digits width : Nat) (place : Int) :
    (ofDecimal negative digits width place).IsProper := by
  rw [ofDecimal]
  split
  · exact Double.isProper_zero negative
  · split
    · trivial
    · split
      · exact Double.isProper_zero negative
      · split
        · exact Double.isProper_ofRatio negative _ Nat.one_pos
        · exact Double.isProper_ofRatio negative _ (tenTo_pos _)

/-- A fraction is read as one. -/
theorem isProper_readFraction? {negative : Bool} {text : List Char} {x : Double}
    (h : readFraction? negative text = some x) : x.IsProper := by
  rw [readFraction?] at h
  simp only at h
  split at h
  all_goals
    obtain ⟨-, h⟩ := Option.ite_none_left_eq_some.mp h
    obtain ⟨exponent, -, h⟩ := Option.bind_eq_some_iff.mp h
    obtain ⟨digits, -, h⟩ := Option.bind_eq_some_iff.mp h
    obtain rfl := Option.some.inj h
    exact isProper_ofDecimal _ _ _ _

/-- **A decimal fraction** is read as a proper double. -/
theorem isProper_readDecimal {text : List Char} {x : Double} (h : readDecimal text = .ok x) :
    x.IsProper := by
  rw [readDecimal] at h
  simp only at h
  split at h
  · obtain rfl := Except.ok.inj h
    trivial
  · split at h
    · obtain rfl := Except.ok.inj h
      trivial
    · split at h
      · next hfraction =>
          obtain rfl := Except.ok.inj h
          exact isProper_readFraction? hfraction
      · cases h

end Number

namespace Yaml.Scalar

/-- So is one of a document. -/
theorem isProper_fraction {text : List Char} {x : Double} (h : fraction text = .ok x) :
    x.IsProper := by
  rw [fraction] at h
  split at h
  · next hread =>
      obtain rfl := Except.ok.inj h
      exact Number.isProper_readDecimal hread
  · cases h

/-- A sum in base sixty is rounded at each place. -/
theorem isProper_sumOfSixtieths {place : Nat} {sum x : Double} {parts : List Double}
    (hsum : sum.IsProper) (h : sumOfSixtieths place sum parts = .ok x) : x.IsProper := by
  induction parts generalizing place sum with
  | nil =>
      obtain rfl := Except.ok.inj h
      exact hsum
  | cons part parts ih =>
      rw [sumOfSixtieths] at h
      split at h
      · cases h
      · exact ih (Double.isProper_add _ _) h

theorem isProper_size {body : List Char} {x : Double} (h : size body = .ok x) : x.IsProper := by
  rw [size] at h
  split at h
  · obtain rfl := Except.ok.inj h
    trivial
  · split at h
    · obtain rfl := Except.ok.inj h
      trivial
    · split at h
      · cases hparts : (Text.segments ':' body).mapM fraction with
        | error defect =>
            rw [hparts] at h
            cases h
        | ok parts =>
            rw [hparts] at h
            exact isProper_sumOfSixtieths (Double.isProper_zero false) h
      · exact isProper_fraction h

/-- **A fraction of a document** is a proper double. -/
theorem isProper_of_float {text : List Char} {value : Value} (h : float text = .ok value) :
    ∃ x, value = .float x ∧ x.IsProper := by
  rw [float] at h
  cases hsign : splitSign (Text.lower (withoutSpacers text)) with
  | error defect =>
      rw [hsign] at h
      cases h
  | ok parts =>
      rw [hsign] at h
      obtain ⟨negative, body⟩ := parts
      cases hsize : size body with
      | error defect =>
          simp only [bind, Except.bind, hsize] at h
          cases h
      | ok x =>
          simp only [bind, Except.bind, hsize] at h
          obtain rfl := Except.ok.inj h
          refine ⟨_, rfl, ?_⟩
          split
          · exact Double.isProper_neg (isProper_size hsize)
          · exact isProper_size hsize

end Yaml.Scalar

end ContentCatalog
