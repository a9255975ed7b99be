import HingeLoss.Decimal.Shortest
import Mathlib

/-!
# Rounding to the nearest double

Operations on doubles carry their exact result as a whole mantissa with two further bits. The bits
represent where the exact number lies, shifting keeps that, and the final rounding reads it off. So
whatever lies in the interval of a double is rounded to this double.
-/

namespace HingeLoss.Decimal

open Float.Model Float.Model.UnpackedFloat

/-- The mantissa and its two further bits say where a number lies between two whole numbers: at the
lower one, below the middle, in the middle or above it. -/
structure Represents (extended : ExtendedMantissa) (number : ℚ) : Prop where
  le : (extended.mantissa : ℚ) ≤ number
  lt : number < extended.mantissa + 1
  roundBit : extended.roundBit = true ↔ extended.mantissa + 1 / 2 ≤ number
  stickyBit : extended.stickyBit = true ↔
    number ≠ extended.mantissa ∧ number ≠ extended.mantissa + 1 / 2

namespace Represents

variable {extended : ExtendedMantissa} {number : ℚ}

theorem bits_iff (represents : Represents extended number) :
    (extended.roundBit || extended.stickyBit) = true ↔ number ≠ extended.mantissa := by
  rw [Bool.or_eq_true, represents.roundBit, represents.stickyBit]
  constructor
  · rintro (above | ⟨different, -⟩) same
    · linarith
    · exact different same
  · intro different
    by_cases middle : number = extended.mantissa + 1 / 2
    · exact .inl (le_of_eq middle.symm)
    · exact .inr ⟨different, middle⟩

theorem shiftRightOne (represents : Represents extended number) :
    Represents extended.shiftRightOne (number / 2) := by
  have bits := represents.bits_iff
  rcases extended with ⟨mantissa, roundBit, stickyBit⟩
  rcases represents with ⟨le, lt, -, -⟩
  simp only at le lt bits
  have parts : (mantissa : ℚ) = 2 * (mantissa / 2 : ℕ) + (mantissa % 2 : ℕ) := by
    exact_mod_cast (Nat.div_add_mod mantissa 2).symm
  rcases Nat.mod_two_eq_zero_or_one mantissa with even | odd
  · rw [even, Nat.cast_zero, add_zero] at parts
    rw [parts] at le lt bits
    constructor
    · simp only [ExtendedMantissa.shiftRightOne]
      linarith
    · simp only [ExtendedMantissa.shiftRightOne]
      linarith
    · simp only [ExtendedMantissa.shiftRightOne, even]
      constructor
      · simp
      · intro above
        linarith
    · simp only [ExtendedMantissa.shiftRightOne, bits]
      constructor
      · intro different
        refine ⟨fun same => different (by linarith), fun same => ?_⟩
        linarith
      · rintro ⟨different, -⟩ same
        exact different (by linarith)
  · rw [odd, Nat.cast_one] at parts
    rw [parts] at le lt bits
    constructor
    · simp only [ExtendedMantissa.shiftRightOne]
      linarith
    · simp only [ExtendedMantissa.shiftRightOne]
      linarith
    · simp only [ExtendedMantissa.shiftRightOne, odd]
      constructor
      · intro
        linarith
      · simp
    · simp only [ExtendedMantissa.shiftRightOne, bits]
      constructor
      · intro different
        refine ⟨fun same => ?_, fun same => different (by linarith)⟩
        linarith
      · rintro ⟨-, different⟩ same
        exact different (by linarith)

theorem shiftRight (represents : Represents extended number) (count : Nat) :
    Represents (extended >>> count) (number / 2 ^ count) := by
  change Represents (count.repeat ExtendedMantissa.shiftRightOne extended) _
  induction count with
  | zero => simpa [Nat.repeat] using represents
  | succ count ih =>
      have next := ih.shiftRightOne
      rw [div_div, ← pow_succ] at next
      exact next

theorem exact (mantissa : Nat) :
    Represents (ExtendedMantissa.ofMantissaAndAccuracy mantissa .exact) mantissa := by
  constructor <;> simp [ExtendedMantissa.ofMantissaAndAccuracy]

/-- What a quotient and the accuracy of its remainder represent. -/
theorem ofFraction (numerator : Nat) {denominator : Nat} (positive : 0 < denominator) :
    Represents (ExtendedMantissa.ofMantissaAndAccuracy (numerator / denominator)
        (accuracyOfFraction (numerator % denominator) denominator))
      (numerator / denominator : ℚ) := by
  have remainder_lt := Nat.mod_lt numerator positive
  have parts : (numerator / denominator : ℚ) =
      (numerator / denominator : ℕ) + (numerator % denominator : ℕ) / (denominator : ℚ) := by
    have nonzero : (denominator : ℚ) ≠ 0 := by exact_mod_cast positive.ne'
    field_simp
    exact_mod_cast (Nat.div_add_mod numerator denominator).symm
  rw [parts]
  generalize numerator / denominator = quotient
  generalize numerator % denominator = remainder at remainder_lt
  have denominator_pos : (0 : ℚ) < denominator := by exact_mod_cast positive
  have nonneg : (0 : ℚ) ≤ remainder / denominator := by positivity
  have lt_one : (remainder : ℚ) / denominator < 1 := by
    rw [div_lt_one denominator_pos]
    exact_mod_cast remainder_lt
  have zero_iff : (remainder : ℚ) / denominator = 0 ↔ remainder = 0 := by
    rw [div_eq_zero_iff, or_iff_left denominator_pos.ne']
    exact Nat.cast_eq_zero
  have half_le_iff : 1 / 2 ≤ (remainder : ℚ) / denominator ↔ denominator ≤ 2 * remainder := by
    rw [le_div_iff₀ denominator_pos, ← @Nat.cast_le ℚ, Nat.cast_mul, Nat.cast_ofNat]
    constructor <;> intro <;> linarith
  have half_iff : (remainder : ℚ) / denominator = 1 / 2 ↔ denominator = 2 * remainder := by
    rw [div_eq_iff denominator_pos.ne', ← @Nat.cast_inj ℚ, Nat.cast_mul, Nat.cast_ofNat]
    constructor <;> intro <;> linarith
  rw [accuracyOfFraction]
  split
  case isTrue isZero =>
    rw [isZero, Nat.cast_zero, zero_div, add_zero]
    exact exact quotient
  case isFalse nonzero =>
    generalize (remainder : ℚ) / denominator = part at *
    rw [← zero_iff] at nonzero
    cases order : compare (2 * remainder) denominator with
    | lt =>
        rw [compare_lt_iff_lt, ← Nat.not_le, ← half_le_iff, not_le] at order
        refine ⟨by simp [ExtendedMantissa.ofMantissaAndAccuracy, nonneg],
          by simpa [ExtendedMantissa.ofMantissaAndAccuracy] using lt_one, ?_, ?_⟩
        · simpa [ExtendedMantissa.ofMantissaAndAccuracy] using order
        · simpa [ExtendedMantissa.ofMantissaAndAccuracy, nonzero] using order.ne
    | eq =>
        rw [compare_eq_iff_eq, eq_comm, ← half_iff] at order
        subst order
        constructor <;> norm_num [ExtendedMantissa.ofMantissaAndAccuracy]
    | gt =>
        rw [compare_gt_iff_gt] at order
        have above : 1 / 2 ≤ part := half_le_iff.2 order.le
        have notHalf : part ≠ 1 / 2 := fun half => order.ne (half_iff.1 half)
        refine ⟨by simp [ExtendedMantissa.ofMantissaAndAccuracy, nonneg],
          by simpa [ExtendedMantissa.ofMantissaAndAccuracy] using lt_one, ?_, ?_⟩
        · simpa [ExtendedMantissa.ofMantissaAndAccuracy] using above
        · simpa [ExtendedMantissa.ofMantissaAndAccuracy, nonzero] using notHalf

/-- Rounding gives the nearest whole number, of two the even one. -/
theorem roundedMantissa_eq (represents : Represents extended number) {whole : Nat}
    (below : (whole : ℚ) - 1 / 2 ≤ number) (above : number ≤ whole + 1 / 2)
    (belowTie : number = whole - 1 / 2 → whole % 2 = 0)
    (aboveTie : number = whole + 1 / 2 → whole % 2 = 0) : extended.roundedMantissa = whole := by
  rcases extended with ⟨mantissa, roundBit, stickyBit⟩
  rcases represents with ⟨le, lt, round, sticky⟩
  simp only at le lt round sticky
  have whole_le : whole ≤ mantissa + 1 := by
    have : (whole : ℚ) < (mantissa + 2 : ℕ) := by push_cast; linarith
    exact Nat.le_of_lt_succ (Nat.cast_lt.1 this)
  have le_whole : mantissa ≤ whole := by
    have : (mantissa : ℚ) < (whole + 1 : ℕ) := by push_cast; linarith
    exact Nat.le_of_lt_succ (Nat.cast_lt.1 this)
  have cases : whole = mantissa ∨ whole = mantissa + 1 := by omega
  rcases cases with rfl | rfl
  · cases roundBit with
    | false => cases stickyBit <;> rfl
    | true =>
        have middle : number = whole + 1 / 2 := le_antisymm above (round.1 rfl)
        have even := aboveTie middle
        cases stickyBit with
        | false =>
          change whole + whole % 2 = whole
          rw [even, add_zero]
        | true => exact absurd middle (sticky.1 rfl).2
  · push_cast at below above belowTie
    have upper : roundBit = true := round.2 (by linarith)
    subst upper
    cases stickyBit with
    | true => rfl
    | false =>
        have middle : number = mantissa + 1 / 2 := by
          by_contra notMiddle
          have notLower : number ≠ mantissa := by
            intro same
            linarith
          exact absurd (sticky.2 ⟨notLower, notMiddle⟩) (by simp)
        have even := belowTie (by linarith)
        change mantissa + mantissa % 2 = mantissa + 1
        omega

end Represents

/-- The parts of a positive double in their one form: the significand has all its bits, or the
exponent is the least. -/
structure IsCanonical (significand : Nat) (exponent : Int) : Prop where
  positive : 0 < significand
  lt : significand < 2 ^ 53
  least_le : -1074 ≤ exponent
  full : 2 ^ 52 ≤ significand ∨ exponent = -1074

/-- The number lies in the interval. -/
def RoundingInterval.Holds (interval : RoundingInterval) (number : ℚ) : Prop :=
  interval.low * (2 : ℚ) ^ interval.quarter ≤ number ∧
    number ≤ interval.high * (2 : ℚ) ^ interval.quarter ∧
      (interval.closed = false →
        interval.low * (2 : ℚ) ^ interval.quarter ≠ number ∧
          number ≠ interval.high * (2 : ℚ) ^ interval.quarter)

theorem RoundingInterval.holds_mul_iff {interval : RoundingInterval} {quarters : ℚ} :
    interval.Holds (quarters * 2 ^ interval.quarter) ↔
      interval.low ≤ quarters ∧ quarters ≤ interval.high ∧
        (interval.closed = false → interval.low ≠ quarters ∧ quarters ≠ interval.high) := by
  have unit : (0 : ℚ) < 2 ^ interval.quarter := by positivity
  simp only [Holds, mul_le_mul_iff_left₀ unit, ne_eq, mul_left_inj' unit.ne']

section Intervals

variable {significand : Nat} {exponent : Int}

@[simp]
theorem RoundingInterval.high_ofParts :
    (ofParts significand exponent).high = 4 * significand + 2 := rfl

@[simp]
theorem RoundingInterval.closed_ofParts :
    (ofParts significand exponent).closed = false ↔ significand % 2 ≠ 0 := by
  simp [ofParts]

/-- The lower end is two quarters below the double, or one at the beginning of a binade. -/
theorem RoundingInterval.low_ofParts (positive : 0 < significand) (exponent : Int) :
    significand = 2 ^ 52 ∧ -1074 < exponent ∧
        (ofParts significand exponent).low + 1 = 4 * significand ∨
      (significand ≠ 2 ^ 52 ∨ exponent ≤ -1074) ∧
        (ofParts significand exponent).low + 2 = 4 * significand := by
  rw [ofParts]
  dsimp only
  split
  case isTrue first => exact .inl ⟨first.1, first.2, by omega⟩
  case isFalse notFirst =>
    refine .inr ⟨?_, by omega⟩
    by_contra both
    rw [not_or, not_not, not_le] at both
    exact notFirst both

end Intervals

section Rounding

variable {significand : Nat} {exponent : Int}

theorem targetExponent_eq (mantissa : Nat) (exponent : Int) :
    Format.binary64.targetExponent (totalExponent mantissa exponent) =
      max (mantissa.log2 + exponent - 52) (-1074) := by
  simp only [Format.targetExponent, totalExponent, Format.mantissaBits, Format.minExponent]
  norm_num
  omega

theorem shiftToTargetExponent_of_isCanonical (canonical : IsCanonical significand exponent) :
    shiftToTargetExponent Format.binary64 significand exponent .exact =
      (⟨significand, false, false⟩, exponent) := by
  have bits : significand.log2 < 53 := (Nat.log2_lt canonical.positive.ne').2 canonical.lt
  have least := canonical.least_le
  have shift : (max (significand.log2 + exponent - 52) (-1074) - exponent).toNat = 0 := by omega
  rw [shiftToTargetExponent, targetExponent_eq, shiftToExponent, shift]
  simp [ExtendedMantissa.ofMantissaAndAccuracy, HShiftRight.hShiftRight, Nat.repeat]

theorem shiftToTargetExponent_carry (least : -1074 < exponent) :
    shiftToTargetExponent Format.binary64 (2 ^ 53) (exponent - 1) .exact =
      (⟨2 ^ 52, false, false⟩, exponent) := by
  have shift : (max (((2 ^ 53 : Nat).log2 : Int) + (exponent - 1) - 52) (-1074) -
      (exponent - 1)).toNat = 1 := by
    rw [Nat.log2_two_pow]
    omega
  rw [shiftToTargetExponent, targetExponent_eq, shiftToExponent, shift]
  simp [ExtendedMantissa.ofMantissaAndAccuracy, HShiftRight.hShiftRight, Nat.repeat,
    ExtendedMantissa.shiftRightOne]

/-- A number lies in the binade that its first binary digit tells. -/
theorem Represents.lt_two_pow {extended : ExtendedMantissa} {number : ℚ}
    (represents : Represents extended number) (scale : Int) :
    number * 2 ^ scale < (2 : ℚ) ^ (extended.mantissa.log2 + 1 + scale : Int) := by
  have next : extended.mantissa + 1 ≤ 2 ^ (extended.mantissa.log2 + 1) := Nat.lt_log2_self
  have bound : number < (2 : ℚ) ^ (extended.mantissa.log2 + 1) := by
    refine represents.lt.trans_le ?_
    exact_mod_cast next
  rw [zpow_add₀ two_ne_zero]
  exact mul_lt_mul_of_pos_right (by exact_mod_cast bound) (by positivity)

theorem Represents.two_pow_le {extended : ExtendedMantissa} {number : ℚ}
    (represents : Represents extended number) (nonzero : extended.mantissa ≠ 0) (scale : Int) :
    (2 : ℚ) ^ (extended.mantissa.log2 + scale : Int) ≤ number * 2 ^ scale := by
  have first : 2 ^ extended.mantissa.log2 ≤ extended.mantissa := Nat.log2_self_le nonzero
  have bound : (2 : ℚ) ^ extended.mantissa.log2 ≤ number := by
    refine le_trans ?_ represents.le
    exact_mod_cast first
  rw [zpow_add₀ two_ne_zero]
  exact mul_le_mul_of_nonneg_right (by exact_mod_cast bound) (by positivity)

theorem two_zpow_add (bits : Nat) (exponent : Int) :
    (2 : ℚ) ^ (bits + exponent) = 2 ^ (bits + 2) * 2 ^ (exponent - 2) := by
  rw [← zpow_natCast, ← zpow_add₀ two_ne_zero]
  congr 1
  push_cast
  ring

/-- What rounds to a double lies below the end of its binade. -/
theorem IsCanonical.lt_of_holds (canonical : IsCanonical significand exponent) {number : ℚ}
    (holds : (RoundingInterval.ofParts significand exponent).Holds number) :
    number < (2 : ℚ) ^ (53 + exponent) := by
  refine holds.2.1.trans_lt ?_
  have bound : 4 * significand + 2 < 2 ^ 55 := by
    have := canonical.lt
    omega
  rw [show (53 + exponent : Int) = (53 : ℕ) + exponent from rfl, two_zpow_add]
  exact mul_lt_mul_of_pos_right (by exact_mod_cast bound) (by positivity)

/-- The exponent at which a number is rounded is that of the double, or one below if the number lies
below the binade that the double begins. -/
theorem targetExponent_of_holds (canonical : IsCanonical significand exponent)
    {extended : ExtendedMantissa} {number : ℚ} (represents : Represents extended number)
    {scale target : Int} (target_eq : target = max (extended.mantissa.log2 + scale - 52) (-1074))
    (deep : scale ≤ target)
    (holds : (RoundingInterval.ofParts significand exponent).Holds (number * 2 ^ scale)) :
    target = exponent ∨
      target = exponent - 1 ∧ significand = 2 ^ 52 ∧ -1074 < exponent ∧
        number * 2 ^ scale < 2 ^ (53 + target) := by
  have above := represents.lt_two_pow scale
  have least := canonical.least_le
  have target_le : target ≤ exponent := by
    by_cases zero : extended.mantissa = 0
    · rw [zero, Nat.log2_zero] at target_eq
      omega
    · have lower := (represents.two_pow_le zero scale).trans_lt (canonical.lt_of_holds holds)
      rw [zpow_lt_zpow_iff_right₀ one_lt_two] at lower
      omega
  by_cases isLeast : exponent = -1074
  · left
    omega
  · have full : 2 ^ 52 ≤ significand := canonical.full.resolve_right isLeast
    have lower {bits : Nat}
        (bound : 2 ^ (bits + 2) ≤ (RoundingInterval.ofParts significand exponent).low) :
        bits + exponent < extended.mantissa.log2 + 1 + scale := by
      rw [← zpow_lt_zpow_iff_right₀ (one_lt_two (α := ℚ)), two_zpow_add]
      refine lt_of_le_of_lt ?_ above
      refine le_trans ?_ holds.1
      exact mul_le_mul_of_nonneg_right (by exact_mod_cast bound) (by positivity)
    have low := RoundingInterval.low_ofParts canonical.positive exponent
    by_cases first : significand = 2 ^ 52
    · have below := @lower 51 (by omega)
      by_cases same : target = exponent
      · exact .inl same
      · refine .inr ⟨by omega, first, by omega, above.trans_le ?_⟩
        rw [zpow_le_zpow_iff_right₀ one_lt_two]
        omega
    · have below := @lower 52 (by omega)
      left
      omega

/-- In units of the last place, a number that rounds to a double is near to its significand. -/
theorem RoundingInterval.near (positive : 0 < significand) {number : ℚ}
    (holds : (RoundingInterval.ofParts significand exponent).Holds (number * 2 ^ exponent)) :
    (significand : ℚ) - 1 / 2 ≤ number ∧ number ≤ significand + 1 / 2 ∧
      (number = significand - 1 / 2 → significand % 2 = 0) ∧
        (number = significand + 1 / 2 → significand % 2 = 0) := by
  have scaled : number * 2 ^ exponent =
      4 * number * 2 ^ (RoundingInterval.ofParts significand exponent).quarter := by
    have split := two_zpow_add 0 exponent
    rw [Nat.cast_zero, zero_add] at split
    change _ = 4 * number * 2 ^ (exponent - 2)
    rw [split]
    ring
  rw [scaled, RoundingInterval.holds_mul_iff] at holds
  rcases holds with ⟨low_le, le_high, inside⟩
  rw [high_ofParts] at le_high inside
  rw [closed_ofParts] at inside
  have low : (4 * significand : ℚ) ≤ (RoundingInterval.ofParts significand exponent).low + 2 := by
    have bound := low_ofParts positive exponent
    exact_mod_cast (show 4 * significand ≤ (ofParts significand exponent).low + 2 by omega)
  push_cast at le_high inside
  refine ⟨by linarith, by linarith, ?_, ?_⟩
  · intro tie
    by_contra odd
    have least := (inside odd).1
    apply least
    linarith
  · intro tie
    by_contra odd
    apply (inside odd).2
    linarith

/-- Below the first significand of a binade, the interval reaches half as far. -/
theorem RoundingInterval.first_near (notLeast : -1074 < exponent) {number : ℚ}
    (holds : (RoundingInterval.ofParts (2 ^ 52) exponent).Holds (number * 2 ^ (exponent - 1))) :
    2 ^ 53 - 1 / 2 ≤ number := by
  have scaled : number * 2 ^ (exponent - 1) =
      2 * number * 2 ^ (RoundingInterval.ofParts (2 ^ 52) exponent).quarter := by
    change _ = 2 * number * 2 ^ (exponent - 2)
    rw [show exponent - 1 = exponent - 2 + 1 by ring, zpow_add_one₀ two_ne_zero]
    ring
  rw [scaled, RoundingInterval.holds_mul_iff] at holds
  have low : (2 ^ 54 - 1 : ℚ) ≤ (RoundingInterval.ofParts (2 ^ 52) exponent).low := by
    have bound := low_ofParts (show 0 < 2 ^ 52 by norm_num) exponent
    have sum : 2 ^ 54 ≤ (ofParts (2 ^ 52) exponent).low + 1 := by omega
    rw [sub_le_iff_le_add]
    exact_mod_cast sum
  have lower := low.trans holds.1
  norm_num at lower ⊢
  linarith

theorem roundWithAccuracy_eq (canonical : IsCanonical significand exponent) {mantissa : Nat}
    {scale : Int} {accuracy : Accuracy} {number : ℚ}
    (represents :
      Represents (ExtendedMantissa.ofMantissaAndAccuracy mantissa accuracy) number)
    (deep : scale ≤ Format.binary64.targetExponent (totalExponent mantissa scale))
    (holds : (RoundingInterval.ofParts significand exponent).Holds (number * 2 ^ scale))
    (sign : Sign) :
    roundWithAccuracy Format.binary64 sign mantissa scale accuracy =
      .finite sign significand exponent canonical.positive := by
  have same : (ExtendedMantissa.ofMantissaAndAccuracy mantissa accuracy).mantissa = mantissa := by
    rcases accuracy with _ | order
    · rfl
    · cases order <;> rfl
  have shifted : shiftToTargetExponent Format.binary64 mantissa scale accuracy =
      (ExtendedMantissa.ofMantissaAndAccuracy mantissa accuracy >>>
        (Format.binary64.targetExponent (totalExponent mantissa scale) - scale).toNat,
        Format.binary64.targetExponent (totalExponent mantissa scale)) := by
    rw [shiftToTargetExponent, shiftToExponent, Prod.mk.injEq]
    exact ⟨rfl, by omega⟩
  have target_eq := targetExponent_eq mantissa scale
  generalize Format.binary64.targetExponent (totalExponent mantissa scale) = target at *
  have moved := represents.shiftRight (target - scale).toNat
  have unit : number * 2 ^ scale = number / 2 ^ (target - scale).toNat * 2 ^ target := by
    have split : (2 : ℚ) ^ target = 2 ^ (target - scale).toNat * 2 ^ scale := by
      rw [← zpow_natCast, ← zpow_add₀ two_ne_zero]
      congr 1
      omega
    rw [split, ← mul_assoc, div_mul_cancel₀ _ (by positivity)]
  rw [← same] at target_eq
  rcases targetExponent_of_holds canonical represents target_eq deep holds with
    rfl | ⟨rfl, rfl, least, below⟩
  · rw [unit] at holds
    rcases RoundingInterval.near canonical.positive holds with ⟨low, high, lowTie, highTie⟩
    have rounded := moved.roundedMantissa_eq low high lowTie highTie
    rw [roundWithAccuracy, shifted]
    simp only [rounded, shiftToTargetExponent_of_isCanonical canonical]
    rw [dif_neg canonical.positive.ne']
  · rw [unit] at holds below
    have carried : (ExtendedMantissa.ofMantissaAndAccuracy mantissa accuracy >>>
        (exponent - 1 - scale).toNat).roundedMantissa = 2 ^ 53 := by
      have upper := (lt_of_mul_lt_mul_right
        (by rwa [zpow_add₀ two_ne_zero] at below) (by positivity))
      have lower := RoundingInterval.first_near least holds
      apply moved.roundedMantissa_eq
      · push_cast
        linarith
      · push_cast
        norm_num at upper
        linarith
      · simp
      · simp
    rw [roundWithAccuracy, shifted]
    simp only [carried, shiftToTargetExponent_carry least]
    rfl

end Rounding

end HingeLoss.Decimal
