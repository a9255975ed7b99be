import HingeLoss.Proofs.Decimal.Rounding

/-!
# The chosen digits lie in the interval

A hit on a decimal grid lies in the interval, and a grid that is finer than the interval has a hit.
The grid of seventeen digits is fine enough for every double, so the search never fails.
-/

namespace HingeLoss.Decimal

namespace Digits

/-- The number that is written. -/
def number (digits : Digits) : ℚ :=
  digits.digits * 10 ^ digits.exponent

theorem go_number (fuel digits : Nat) (exponent : Int) :
    (trimmed.go fuel digits exponent).number = digits * 10 ^ exponent := by
  induction fuel generalizing digits exponent with
  | zero => rfl
  | succ fuel ih =>
      rw [trimmed.go]
      split
      case isTrue divisible =>
        have parts : (digits : ℚ) = 10 * (digits / 10 : ℕ) := by
          exact_mod_cast (Nat.mul_div_cancel' (Nat.dvd_of_mod_eq_zero divisible.2)).symm
        rw [ih, parts, zpow_add_one₀ (by norm_num)]
        ring
      case isFalse => rfl

theorem go_positive {digits : Nat} (fuel : Nat) (exponent : Int) (positive : 0 < digits) :
    0 < (trimmed.go fuel digits exponent).digits := by
  induction fuel generalizing digits exponent with
  | zero => exact positive
  | succ fuel ih =>
      rw [trimmed.go]
      split
      case isTrue divisible =>
        apply ih
        omega
      case isFalse => exact positive

end Digits

theorem powerParts_pos {base : Nat} (positive : 0 < base) (exponent : Int) :
    0 < (powerParts base exponent).1 ∧ 0 < (powerParts base exponent).2 :=
  ⟨Nat.pow_pos positive, Nat.pow_pos positive⟩

theorem powerParts_eq {base : Nat} (positive : 0 < base) (exponent : Int) :
    (base : ℚ) ^ exponent = (powerParts base exponent).1 / (powerParts base exponent).2 := by
  have nonzero : (base : ℚ) ≠ 0 := by exact_mod_cast positive.ne'
  change _ = ((base ^ exponent.toNat : ℕ) : ℚ) / (base ^ (-exponent).toNat : ℕ)
  rw [Nat.cast_pow, Nat.cast_pow, ← zpow_natCast, ← zpow_natCast, ← zpow_sub₀ nonzero]
  congr 1
  omega

namespace RoundingInterval

variable {interval : RoundingInterval} {step quarter multiple : Nat}

/-- If a step of the grid is the given fraction of a quarter, the multiples of it that are contained
are those that lie in the interval. -/
theorem holds_of_contains (quarter_pos : 0 < quarter)
    (contained : interval.contains step quarter multiple = true) :
    interval.Holds (multiple * (step / quarter * 2 ^ interval.quarter)) := by
  have positive : (0 : ℚ) < quarter := by exact_mod_cast quarter_pos
  have quarters : (multiple * (step / quarter * 2 ^ interval.quarter) : ℚ) =
      (multiple * step : ℕ) / quarter * 2 ^ interval.quarter := by
    push_cast
    ring
  have low_le_iff : (interval.low : ℚ) ≤ (multiple * step : ℕ) / quarter ↔
      interval.low * quarter ≤ multiple * step := by
    rw [le_div_iff₀ positive]
    exact_mod_cast Iff.rfl
  have le_high_iff : ((multiple * step : ℕ) / quarter : ℚ) ≤ interval.high ↔
      multiple * step ≤ interval.high * quarter := by
    rw [div_le_iff₀ positive]
    exact_mod_cast Iff.rfl
  have low_eq_iff : (interval.low : ℚ) = (multiple * step : ℕ) / quarter ↔
      interval.low * quarter = multiple * step := by
    rw [eq_div_iff positive.ne']
    exact_mod_cast Iff.rfl
  have eq_high_iff : ((multiple * step : ℕ) / quarter : ℚ) = interval.high ↔
      multiple * step = interval.high * quarter := by
    rw [div_eq_iff positive.ne']
    exact_mod_cast Iff.rfl
  rw [quarters, holds_mul_iff, low_le_iff, le_high_iff, ne_eq, ne_eq, low_eq_iff, eq_high_iff]
  rw [contains] at contained
  split at contained
  case isTrue closed =>
    rw [Bool.and_eq_true, decide_eq_true_eq, decide_eq_true_eq] at contained
    exact ⟨contained.1, contained.2, fun isOpen => absurd closed (by simp [isOpen])⟩
  case isFalse =>
    rw [Bool.and_eq_true, decide_eq_true_eq, decide_eq_true_eq] at contained
    exact ⟨contained.1.le, contained.2.le, fun _ => ⟨contained.1.ne, contained.2.ne⟩⟩

/-- A multiple strictly inside is contained, whether or not the ends are. -/
theorem contains_of_lt (low : interval.low * quarter < multiple * step)
    (high : multiple * step < interval.high * quarter) :
    interval.contains step quarter multiple = true := by
  rw [contains]
  split
  · simp [low.le, high.le]
  · simp [low, high]

/-- The grid step and the quarter, counted in a unit common to both. -/
def gridStep (interval : RoundingInterval) (gridExponent : Int) : Nat :=
  (powerParts 10 gridExponent).1 * (powerParts 2 interval.quarter).2

def gridQuarter (interval : RoundingInterval) (gridExponent : Int) : Nat :=
  (powerParts 2 interval.quarter).1 * (powerParts 10 gridExponent).2

theorem gridStep_pos (interval : RoundingInterval) (gridExponent : Int) :
    0 < interval.gridStep gridExponent :=
  Nat.mul_pos (powerParts_pos (by omega) gridExponent).1
    (powerParts_pos (by omega) interval.quarter).2

theorem gridQuarter_pos (interval : RoundingInterval) (gridExponent : Int) :
    0 < interval.gridQuarter gridExponent :=
  Nat.mul_pos (powerParts_pos (by omega) interval.quarter).1
    (powerParts_pos (by omega) gridExponent).2

theorem grid_eq (interval : RoundingInterval) (gridExponent : Int) :
    (10 : ℚ) ^ gridExponent =
      interval.gridStep gridExponent / interval.gridQuarter gridExponent *
        2 ^ interval.quarter := by
  have tenDown : ((powerParts 10 gridExponent).2 : ℚ) ≠ 0 := by
    exact_mod_cast (powerParts_pos (by omega) gridExponent).2.ne'
  have twoUp : ((powerParts 2 interval.quarter).1 : ℚ) ≠ 0 := by
    exact_mod_cast (powerParts_pos (by omega) interval.quarter).1.ne'
  have twoDown : ((powerParts 2 interval.quarter).2 : ℚ) ≠ 0 := by
    exact_mod_cast (powerParts_pos (by omega) interval.quarter).2.ne'
  have ten := powerParts_eq (show 0 < 10 by omega) gridExponent
  have two := powerParts_eq (show 0 < 2 by omega) interval.quarter
  rw [Nat.cast_ofNat] at ten two
  rw [ten, two, gridStep, gridQuarter]
  push_cast
  field_simp

/-- The multiple of the grid step below the value. -/
def multipleBelow (interval : RoundingInterval) (gridExponent : Int) : Nat :=
  interval.value * interval.gridQuarter gridExponent / interval.gridStep gridExponent

theorem fits_of_hit {gridExponent : Int} {number : Digits}
    (hit : interval.hit? gridExponent = some number) :
    number.exponent = gridExponent ∧ 0 < number.digits ∧
      interval.contains (interval.gridStep gridExponent) (interval.gridQuarter gridExponent)
        number.digits = true := by
  simp only [hit?] at hit
  split at hit
  case isTrue below =>
    simp only [Bool.and_eq_true, decide_eq_true_eq] at below
    obtain rfl := Option.some.inj hit
    exact ⟨rfl, below.1.1, below.1.2⟩
  case isFalse =>
    split at hit
    case isTrue above =>
      obtain rfl := Option.some.inj hit
      exact ⟨rfl, Nat.succ_pos _, above⟩
    case isFalse => simp at hit

/-- A grid is missed only if neither of the two multiples around the value fits. -/
theorem not_contains_of_hit_eq_none {gridExponent : Int}
    (missed : interval.hit? gridExponent = none) :
    (0 < interval.multipleBelow gridExponent →
      interval.contains (interval.gridStep gridExponent) (interval.gridQuarter gridExponent)
        (interval.multipleBelow gridExponent) = false) ∧
    interval.contains (interval.gridStep gridExponent) (interval.gridQuarter gridExponent)
      (interval.multipleBelow gridExponent + 1) = false := by
  simp only [hit?] at missed
  split at missed
  case isTrue => simp at missed
  case isFalse neither =>
    split at missed
    case isTrue => simp at missed
    case isFalse above =>
      rw [Bool.not_eq_true] at above
      refine ⟨fun positive => ?_, above⟩
      by_contra fits
      rw [Bool.not_eq_false] at fits
      apply neither
      rw [above, Bool.not_false, Bool.true_or, Bool.true_or, Bool.and_true, Bool.and_eq_true,
        decide_eq_true_eq]
      exact ⟨positive, fits⟩

theorem hit_holds {gridExponent : Int} {number : Digits}
    (hit : interval.hit? gridExponent = some number) :
    0 < number.digits ∧ interval.Holds number.number := by
  rcases fits_of_hit hit with ⟨rfl, positive, contained⟩
  have holds := holds_of_contains (interval.gridQuarter_pos number.exponent) contained
  rw [← grid_eq] at holds
  exact ⟨positive, holds⟩

/-- If the steps of a grid are short, one of the two around the value is contained. Below a power of
two there is less room, so that there the steps have to be shorter. -/
theorem contains_below_or_above {significand : Nat} (positive : 0 < significand) (exponent : Int)
    (step_pos : 0 < step) (fine : step < 4 * quarter)
    (first : significand = 2 ^ 52 → step < 2 * quarter) :
    0 < 4 * significand * quarter / step ∧
        (ofParts significand exponent).contains step quarter
          (4 * significand * quarter / step) = true ∨
      (ofParts significand exponent).contains step quarter
        (4 * significand * quarter / step + 1) = true := by
  have low_cases := low_ofParts positive exponent
  have lower := Nat.div_mul_le_self (4 * significand * quarter) step
  have upper : 4 * significand * quarter < 4 * significand * quarter / step * step + step :=
    Nat.lt_div_mul_add step_pos
  generalize 4 * significand * quarter / step = multiple at *
  have next : (multiple + 1) * step = multiple * step + step := by ring
  have high : (ofParts significand exponent).high * quarter =
      4 * significand * quarter + 2 * quarter := by
    rw [high_ofParts]
    ring
  have low_le : (ofParts significand exponent).low * quarter ≤ 4 * significand * quarter :=
    Nat.mul_le_mul_right _ (by omega)
  by_cases inside : (multiple + 1) * step < (ofParts significand exponent).high * quarter
  · exact .inr (contains_of_lt (by omega) inside)
  · left
    rcases low_cases with ⟨isFirst, -⟩ | ⟨-, low⟩
    · have := first isFirst
      omega
    · have low_eq : (ofParts significand exponent).low * quarter + 2 * quarter =
          4 * significand * quarter := by
        rw [← low]
        ring
      have multiple_pos : 0 < multiple := by
        apply Nat.pos_of_ne_zero
        rintro rfl
        omega
      exact ⟨multiple_pos, contains_of_lt (by omega) (by omega)⟩

end RoundingInterval

theorem pow_length_le {number : Nat} (positive : 0 < number) :
    10 ^ ((Nat.toDigits 10 number).length - 1) ≤ number := by
  have nonempty := @Nat.length_toDigits_pos 10 number
  rcases Nat.eq_or_lt_of_le nonempty with one | more
  · rw [← one]
    exact positive
  · by_contra small
    have := (Nat.length_toDigits_le_iff (by omega)
      (show 0 < (Nat.toDigits 10 number).length - 1 by omega)).2 (Nat.not_le.1 small)
    omega

section Grids

variable {significand : Nat} {exponent : Int}

/-- A grid finer than the interval is not missed. -/
theorem exists_hit (positive : 0 < significand) {gridExponent : Int}
    (fine : (10 : ℚ) ^ gridExponent < 2 ^ exponent)
    (first : significand = 2 ^ 52 → (10 : ℚ) ^ gridExponent < 2 ^ (exponent - 1)) :
    ∃ number, (RoundingInterval.ofParts significand exponent).hit? gridExponent = some number := by
  have step_pos := (RoundingInterval.ofParts significand exponent).gridStep_pos gridExponent
  have quarter_pos := (RoundingInterval.ofParts significand exponent).gridQuarter_pos gridExponent
  have shorter {bits : Nat} (within : (10 : ℚ) ^ gridExponent < 2 ^ (bits + (exponent - 2))) :
      (RoundingInterval.ofParts significand exponent).gridStep gridExponent <
        2 ^ bits * (RoundingInterval.ofParts significand exponent).gridQuarter gridExponent := by
    have positive' : (0 : ℚ) <
        (RoundingInterval.ofParts significand exponent).gridQuarter gridExponent := by
      exact_mod_cast quarter_pos
    rw [RoundingInterval.grid_eq (.ofParts significand exponent), zpow_add₀ two_ne_zero,
      zpow_natCast] at within
    have fraction := lt_of_mul_lt_mul_right within (by positivity)
    rw [div_lt_iff₀ positive'] at fraction
    exact_mod_cast fraction
  have fits := RoundingInterval.contains_below_or_above positive exponent step_pos
    (@shorter 2 (by rwa [show (2 : ℕ) + (exponent - 2) = exponent by omega]))
    (fun isFirst => @shorter 1 (by
      rw [show (1 : ℕ) + (exponent - 2) = exponent - 1 by omega]
      exact first isFirst))
  by_contra missed
  rw [← Option.isSome_iff_exists, Option.not_isSome_iff_eq_none] at missed
  rcases RoundingInterval.not_contains_of_hit_eq_none missed with ⟨below, above⟩
  rcases fits with ⟨multiple_pos, contained⟩ | contained
  · exact Bool.false_ne_true ((below multiple_pos).symm.trans contained)
  · exact Bool.false_ne_true (above.symm.trans contained)

theorem le_of_leadingZeros {denominator fuel numerator : Nat}
    (enough : denominator ≤ 10 ^ (fuel + 1) * numerator) :
    denominator ≤ 10 ^ (leadingZeros denominator fuel numerator + 1) * numerator := by
  induction fuel generalizing numerator with
  | zero => exact enough
  | succ fuel ih =>
      rw [leadingZeros]
      split
      case isTrue reached => simpa using reached
      case isFalse =>
        have next := @ih (10 * numerator) (by rwa [← mul_assoc, ← pow_succ])
        rwa [← mul_assoc, ← pow_succ] at next

/-- The first digit of a double is not before the place it is looked for. -/
theorem pow_binaryPointPlace_le (positive : 0 < significand) :
    (10 : ℚ) ^ (binaryPointPlace significand exponent - 1) ≤ significand * 2 ^ exponent := by
  have parts := powerParts_eq (show 0 < 2 by omega) exponent
  have ⟨up_pos, down_pos⟩ := powerParts_pos (show 0 < 2 by omega) exponent
  have place_eq : binaryPointPlace significand exponent =
      if significand * (powerParts 2 exponent).1 / (powerParts 2 exponent).2 = 0 then
        -(leadingZeros (powerParts 2 exponent).2 ((powerParts 2 exponent).2.log2 + 1)
          (significand * (powerParts 2 exponent).1) : Int)
      else
        (Nat.toDigits 10
          (significand * (powerParts 2 exponent).1 / (powerParts 2 exponent).2)).length := rfl
  rw [Nat.cast_ofNat] at parts
  rw [place_eq, parts]
  generalize (powerParts 2 exponent).1 = up at *
  generalize (powerParts 2 exponent).2 = down at *
  have down_pos' : (0 : ℚ) < down := by exact_mod_cast down_pos
  rw [mul_div_assoc', le_div_iff₀ down_pos', ← Nat.cast_mul]
  split
  case isTrue =>
    have enough : down ≤ 10 ^ (down.log2 + 1 + 1) * (significand * up) := by
      calc down ≤ 2 ^ (down.log2 + 1) := Nat.lt_log2_self.le
        _ ≤ 10 ^ (down.log2 + 1) := Nat.pow_le_pow_left (by omega) _
        _ ≤ 10 ^ (down.log2 + 1 + 1) := Nat.pow_le_pow_right (by omega) (by omega)
        _ ≤ _ := Nat.le_mul_of_pos_right _ (Nat.mul_pos positive up_pos)
    have reached := le_of_leadingZeros enough
    generalize leadingZeros down (down.log2 + 1) (significand * up) = zeros at *
    rw [show -(zeros : Int) - 1 = -((zeros + 1 : ℕ) : Int) by omega, zpow_neg, zpow_natCast,
      inv_mul_le_iff₀ (by positivity)]
    exact_mod_cast reached
  case isFalse nonzero =>
    have least := pow_length_le (Nat.pos_of_ne_zero nonzero)
    have nonempty := @Nat.length_toDigits_pos 10 (significand * up / down)
    rw [show ((Nat.toDigits 10 (significand * up / down)).length : Int) - 1 =
      ((Nat.toDigits 10 (significand * up / down)).length - 1 : ℕ) by omega, zpow_natCast]
    have whole := (Nat.mul_le_mul_right down least).trans (Nat.div_mul_le_self _ _)
    exact_mod_cast whole

/-- Seventeen digits are always enough. -/
theorem exists_hit_seventeen (canonical : IsCanonical significand exponent) :
    ∃ number, (RoundingInterval.ofParts significand exponent).hit?
      (binaryPointPlace significand exponent - 17) = some number := by
  have least := @pow_binaryPointPlace_le significand exponent canonical.positive
  have grid : (10 : ℚ) ^ (binaryPointPlace significand exponent - 17) =
      10 ^ (binaryPointPlace significand exponent - 1) / 10 ^ 16 := by
    rw [← zpow_natCast, ← zpow_sub₀ (by norm_num)]
    congr 1
    omega
  have unit : (0 : ℚ) < 2 ^ exponent := by positivity
  apply exists_hit canonical.positive
  · rw [grid, div_lt_iff₀ (by positivity), mul_comm]
    refine least.trans_lt (mul_lt_mul_of_pos_right ?_ unit)
    have := canonical.lt
    exact_mod_cast (show significand < 10 ^ 16 by omega)
  · intro first
    rw [grid, div_lt_iff₀ (by positivity), zpow_sub_one₀ two_ne_zero]
    refine least.trans_lt ?_
    rw [first]
    push_cast
    linarith

/-- The chosen digits denote a number that lies in the interval. -/
theorem shortest_holds (canonical : IsCanonical significand exponent) :
    0 < (shortest significand exponent).digits ∧
      (RoundingInterval.ofParts significand exponent).Holds
        (shortest significand exponent).number := by
  rcases exists_hit_seventeen canonical with ⟨found, hit⟩
  rw [shortest]
  split
  case h_1 number some =>
    rcases List.exists_of_findSome?_eq_some some with ⟨count, -, isHit⟩
    rcases RoundingInterval.hit_holds isHit with ⟨positive, holds⟩
    exact ⟨Digits.go_positive _ _ positive, by rwa [Digits.trimmed, Digits.go_number]⟩
  case h_2 none =>
    rw [List.findSome?_eq_none_iff] at none
    have missed := none 16 (by simp)
    rw [show ((16 + 1 : ℕ) : Int) = 17 from rfl, hit] at missed
    simp at missed

end Grids

end HingeLoss.Decimal
