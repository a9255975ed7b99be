import HingeLoss.Proofs.Decimal.Nearest

/-!
# Decimal numbers that are finite doubles

A decimal number is never rounded to a value that is no number, and a whole number of 64 bits never
to an infinite one.
-/

namespace HingeLoss.Decimal

open Float.Model Float.Model.UnpackedFloat

section Packing

theorem isNaN_unpack_packComponents (sign : Sign) {exponent : BitVec 11} (mantissa : BitVec 52)
    (notTop : exponent ≠ -1#11) :
    (UnpackedFloat.unpack Format.binary64
      (packComponents Format.binary64 sign exponent mantissa)).isNaN = false := by
  rw [UnpackedFloat.unpack]
  simp only [unpackExponent_packComponents, if_neg notTop]
  split
  · split <;> rfl
  · rfl

theorem isNaN_unpack_pack {parts : UnpackedFloat} (number : parts.isNaN = false) :
    (UnpackedFloat.unpack Format.binary64
      (UnpackedFloat.pack Format.binary64 parts)).isNaN = false := by
  cases parts with
  | notANumber => exact absurd number (by decide)
  | infinity sign => cases sign <;> decide +kernel
  | zero sign => cases sign <;> decide +kernel
  | finite sign significand exponent positive =>
      rw [UnpackedFloat.pack]
      dsimp only
      split
      case isTrue => cases sign <;> decide +kernel
      case isFalse inside =>
        split
        · apply isNaN_unpack_packComponents
          intro top
          apply inside
          have same := congrArg BitVec.toNat top
          change (BitVec.ofNat 11 _).toNat = 2 ^ 11 - 1 at same
          rw [BitVec.toNat_ofNat] at same
          have := Nat.mod_le (exponent + Format.binary64.exponentBias +
            Format.binary64.mantissaBitsWithoutImplicit).toNat (2 ^ 11)
          change 2 ^ 11 ≤ _
          omega
        · exact isNaN_unpack_packComponents sign _ (by decide)

theorem isNaN_roundWithAccuracy (sign : Sign) (mantissa : Nat) (exponent : Int)
    (accuracy : Accuracy) :
    (roundWithAccuracy Format.binary64 sign mantissa exponent accuracy).isNaN = false := by
  simp only [roundWithAccuracy]
  split <;> rfl

theorem isNaN_neg {parts : UnpackedFloat} (number : parts.isNaN = false) :
    parts.neg.isNaN = false := by
  cases parts <;> first | rfl | exact number

end Packing

theorem isNaN_ofScientific (digits : Nat) (place : Int) :
    (UnpackedFloat.ofScientific Format.binary64 digits place).isNaN = false := by
  rw [UnpackedFloat.ofScientific]
  split
  · rfl
  · split
    · rfl
    · split
      · rfl
      · split
        · exact isNaN_roundWithAccuracy ..
        · exact isNaN_roundWithAccuracy ..

theorem isNaN_float_ofScientific {digits : Nat} (positive : 0 < digits) (negative : Bool)
    (place : Nat) : (Float.ofScientific digits negative place).isNaN = false := by
  rw [Float.ofScientific]
  split
  case isTrue small =>
    have whole := unpack_toFloat positive small.1
    have listed : place < Float.exactlyRepresentablePowersOfTen.size := Nat.lt_succ_of_le small.2
    rcases exists_unpack_powerOfTen listed with ⟨mantissa, scale, mantissa_pos, unpacked, -⟩
    split
    · change (UnpackedFloat.unpack Format.binary64 (UnpackedFloat.pack Format.binary64
        (UnpackedFloat.div Format.binary64 _ _))).isNaN = false
      rw [whole, unpacked]
      exact isNaN_unpack_pack (isNaN_roundWithAccuracy ..)
    · change (UnpackedFloat.unpack Format.binary64 (UnpackedFloat.pack Format.binary64
        (UnpackedFloat.mul Format.binary64 _ _))).isNaN = false
      rw [whole, unpacked]
      exact isNaN_unpack_pack (isNaN_roundWithAccuracy ..)
  case isFalse => exact isNaN_unpack_pack (isNaN_ofScientific ..)

theorem isNaN_nearestDouble (negative : Bool) (digits : Nat) (scale : Int) :
    (nearestDouble negative digits scale).isNaN = false := by
  have magnitude : (if digits = 0 ∨ (Nat.toDigits 10 digits).length + scale < -330 then (0 : Float)
      else if 310 < (Nat.toDigits 10 digits).length + scale then 1 / 0
      else Float.ofScientific digits (scale < 0) scale.natAbs).isNaN = false := by
    split
    case isTrue => decide +kernel
    case isFalse inside =>
      split
      case isTrue => decide +kernel
      case isFalse => exact isNaN_float_ofScientific (by omega) _ _
  rw [nearestDouble]
  cases negative with
  | false => exact magnitude
  | true => exact isNaN_unpack_pack (isNaN_neg magnitude)

section Whole

/-- A number between two neighbouring doubles, counted in quarters of their gap, lies in the
interval of one of them. -/
theorem exists_holds_between {steps : Nat} {exponent : Int} (full : 2 ^ 52 ≤ steps)
    (fits : steps < 2 ^ 53) (least : -1074 ≤ exponent) {part : ℚ} (nonneg : 0 ≤ part)
    (part_lt : part < 4) :
    ∃ significand : Nat, ∃ nearby : Int, IsCanonical significand nearby ∧ nearby ≤ exponent + 1 ∧
      (RoundingInterval.ofParts significand nearby).Holds
        ((4 * steps + part) * 2 ^ (exponent - 2)) := by
  by_cases near : part < 2 ∨ part = 2 ∧ steps % 2 = 0
  · -- the double below
    have part_le : part ≤ 2 := by
      rcases near with below | ⟨middle, -⟩
      · exact below.le
      · exact middle.le
    have low : ((RoundingInterval.ofParts steps exponent).low : ℚ) < 4 * steps := by
      have bound := RoundingInterval.low_ofParts (show 0 < steps by omega) exponent
      exact_mod_cast (show (RoundingInterval.ofParts steps exponent).low < 4 * steps by omega)
    refine ⟨steps, exponent, ⟨by omega, fits, least, .inl full⟩, by omega, ?_⟩
    apply RoundingInterval.holds_mul_iff.2
    rw [RoundingInterval.closed_ofParts, RoundingInterval.high_ofParts]
    push_cast
    refine ⟨by linarith, by linarith, fun odd => ?_⟩
    have below : part < 2 := near.resolve_right fun middle => odd middle.2
    exact ⟨by linarith, by linarith⟩
  · have part_ge : 2 ≤ part := by
      by_contra below
      exact near (.inl (not_le.1 below))
    by_cases carried : steps + 1 = 2 ^ 53
    · -- the power of two that begins the next binade
      have steps_eq : (steps : ℚ) = 2 ^ 53 - 1 := by
        rw [eq_sub_iff_add_eq]
        exact_mod_cast carried
      have low : (RoundingInterval.ofParts (2 ^ 52) (exponent + 1)).low = 2 ^ 54 - 1 := by
        have bound := RoundingInterval.low_ofParts (show 0 < 2 ^ 52 by norm_num) (exponent + 1)
        omega
      have scaled : ((4 * steps + part) * 2 ^ (exponent - 2) : ℚ) =
          (4 * steps + part) / 2 * 2 ^ (exponent + 1 - 2) := by
        rw [show exponent + 1 - 2 = exponent - 2 + 1 by ring, zpow_add_one₀ two_ne_zero]
        ring
      refine ⟨2 ^ 52, exponent + 1, ⟨by norm_num, by norm_num, by omega, .inl le_rfl⟩, le_rfl, ?_⟩
      rw [scaled]
      apply RoundingInterval.holds_mul_iff.2
      rw [RoundingInterval.closed_ofParts, RoundingInterval.high_ofParts, low, steps_eq]
      norm_num
      exact ⟨by linarith, by linarith⟩
    · -- the double above
      have low : ((RoundingInterval.ofParts (steps + 1) exponent).low : ℚ) = 4 * steps + 2 := by
        have bound := RoundingInterval.low_ofParts (show 0 < steps + 1 by omega) exponent
        exact_mod_cast
          (show (RoundingInterval.ofParts (steps + 1) exponent).low = 4 * steps + 2 by omega)
      refine ⟨steps + 1, exponent, ⟨by omega, by omega, least, .inl (by omega)⟩, by omega, ?_⟩
      apply RoundingInterval.holds_mul_iff.2
      rw [RoundingInterval.closed_ofParts, RoundingInterval.high_ofParts, low]
      push_cast
      refine ⟨by linarith, by linarith, fun odd => ?_⟩
      have above : 2 < part :=
        lt_of_le_of_ne part_ge fun middle => near (.inr ⟨middle.symm, by omega⟩)
      exact ⟨by linarith, by linarith⟩

theorem exists_holds {value : Nat} (positive : 0 < value) :
    ∃ significand : Nat, ∃ exponent : Int, IsCanonical significand exponent ∧
      exponent ≤ value.log2 - 51 ∧
      (RoundingInterval.ofParts significand exponent).Holds value := by
  by_cases fits : value < 2 ^ 53
  · have canonical := isCanonical_of_lt positive fits
    have holds := @RoundingInterval.holds_self _ (value.log2 - 52) canonical.positive
    rw [full_value positive fits] at holds
    exact ⟨_, _, canonical, by omega, holds⟩
  · have bits : 53 ≤ value.log2 := (Nat.le_log2 positive.ne').2 (Nat.not_lt.1 fits)
    have split := Nat.div_add_mod' value (2 ^ (value.log2 - 52))
    have lower : 2 ^ 52 ≤ value / 2 ^ (value.log2 - 52) := by
      rw [Nat.le_div_iff_mul_le (by positivity), ← pow_add,
        show 52 + (value.log2 - 52) = value.log2 by omega]
      exact Nat.log2_self_le positive.ne'
    have upper : value / 2 ^ (value.log2 - 52) < 2 ^ 53 := by
      rw [Nat.div_lt_iff_lt_mul (by positivity), ← pow_add,
        show 53 + (value.log2 - 52) = value.log2 + 1 by omega]
      exact Nat.lt_log2_self
    have shift : (2 : ℚ) ^ ((value.log2 : Int) - 52 - 2) * 4 = 2 ^ (value.log2 - 52) := by
      have grid := two_zpow_add 0 ((value.log2 : Int) - 52)
      rw [Nat.cast_zero, zero_add] at grid
      rw [mul_comm, ← zpow_natCast, show ((value.log2 - 52 : ℕ) : Int) = value.log2 - 52 by omega,
        grid]
      norm_num
    have rest_lt := Nat.mod_lt value (show 0 < 2 ^ (value.log2 - 52) by positivity)
    generalize value / 2 ^ (value.log2 - 52) = steps at *
    generalize value % 2 ^ (value.log2 - 52) = rest at *
    have unit : (0 : ℚ) < 2 ^ ((value.log2 : Int) - 52 - 2) := by positivity
    have part_lt : (rest : ℚ) / 2 ^ ((value.log2 : Int) - 52 - 2) < 4 := by
      rw [div_lt_iff₀ unit, mul_comm, shift]
      exact_mod_cast rest_lt
    rcases exists_holds_between lower upper (show -1074 ≤ (value.log2 : Int) - 52 by omega)
      (by positivity) part_lt with ⟨significand, exponent, canonical, exponent_le, holds⟩
    have same : ((4 * steps + rest / 2 ^ ((value.log2 : Int) - 52 - 2)) *
        2 ^ ((value.log2 : Int) - 52 - 2) : ℚ) = value := by
      have whole : (value : ℚ) = steps * 2 ^ (value.log2 - 52) + rest := by
        exact_mod_cast split.symm
      rw [add_mul, div_mul_cancel₀ _ unit.ne', whole, ← shift]
      ring
    rw [same] at holds
    exact ⟨significand, exponent, canonical, by omega, holds⟩

/-- Whole numbers of moderate size are read as finite doubles. -/
theorem isFinite_nearestDouble {value : Nat} (small : value < 2 ^ 64) (sign : Sign) :
    (nearestDouble (isNegative sign) value 0).isFinite = true := by
  by_cases zero : value = 0
  · subst zero
    cases sign <;> decide +kernel
  · have positive := Nat.pos_of_ne_zero zero
    rcases exists_holds positive with ⟨significand, exponent, canonical, exponent_le, holds⟩
    have bits := (Nat.log2_lt zero).2 small
    rw [nearestDouble_eq canonical (by omega) positive (by simpa using holds) sign]
    change (UnpackedFloat.unpack Format.binary64
      (UnpackedFloat.pack Format.binary64 _)).isFinite = true
    rw [unpack_pack canonical (by omega) sign]
    rfl

end Whole

end HingeLoss.Decimal
