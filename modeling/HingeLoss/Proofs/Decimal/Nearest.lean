import HingeLoss.Decimal.Reading
import HingeLoss.Proofs.Decimal.Packing
import HingeLoss.Proofs.Decimal.Shortest

/-!
# The nearest double of a decimal number

A decimal number is computed as a product with or a quotient by a power of ten, of doubles if both
are exact and of exact parts otherwise. Either way it is rounded once, to the double in whose
interval it lies.
-/

namespace HingeLoss.Decimal

open Float.Model Float.Model.UnpackedFloat

section Operations

variable {significand : Nat} {exponent : Int}
  {first second : Nat} {firstExponent secondExponent : Int}

theorem mul_eq (canonical : IsCanonical significand exponent) (first_pos : 0 < first)
    (second_pos : 0 < second) (full : 2 ^ 52 ≤ first * second)
    (holds : (RoundingInterval.ofParts significand exponent).Holds
      (first * second * 2 ^ (firstExponent + secondExponent))) :
    UnpackedFloat.mul Format.binary64 (.finite .positive first firstExponent first_pos)
        (.finite .positive second secondExponent second_pos) =
      .finite .positive significand exponent canonical.positive := by
  have bits := (Nat.le_log2 (by omega)).2 full
  have represents := Represents.exact (first * second)
  rw [Nat.cast_mul] at represents
  refine roundWithAccuracy_eq canonical represents ?_ holds .positive
  rw [targetExponent_eq]
  omega

theorem div_eq (canonical : IsCanonical significand exponent) (first_pos : 0 < first)
    (second_pos : 0 < second)
    (holds : (RoundingInterval.ofParts significand exponent).Holds
      (first / second * 2 ^ (firstExponent - secondExponent))) :
    UnpackedFloat.div Format.binary64 (.finite .positive first firstExponent first_pos)
        (.finite .positive second secondExponent second_pos) =
      .finite .positive significand exponent canonical.positive := by
  have target : Format.binary64.targetExponent
      (totalExponent first firstExponent - totalExponent second secondExponent) =
        max ((first.log2 : Int) + firstExponent - second.log2 - secondExponent - 53) (-1074) := by
    simp only [Format.targetExponent, totalExponent, Format.mantissaBits, Format.minExponent]
    norm_num
    omega
  change roundWithAccuracy Format.binary64 .positive
    (divCore Format.binary64 first firstExponent second secondExponent).1
    (divCore Format.binary64 first firstExponent second secondExponent).2.1
    (divCore Format.binary64 first firstExponent second secondExponent).2.2 = _
  simp only [divCore, target]
  generalize scale_eq : min (firstExponent - secondExponent) (max ((first.log2 : Int) +
    firstExponent - second.log2 - secondExponent - 53) (-1074)) = scale
  have shift : ((firstExponent - secondExponent - scale).toNat : Int) =
      firstExponent - secondExponent - scale := by omega
  generalize (firstExponent - secondExponent - scale).toNat = count at shift
  rw [Nat.shiftLeft_eq]
  have represents := Represents.ofFraction (first * 2 ^ count) second_pos
  refine roundWithAccuracy_eq canonical represents ?_ ?_ .positive
  · rw [targetExponent_eq]
    by_cases least : scale ≤ -1074
    · omega
    · have enough : 53 + second.log2 ≤ first.log2 + count := by omega
      have full : 2 ^ 52 ≤ first * 2 ^ count / second := by
        rw [Nat.le_div_iff_mul_le second_pos]
        calc 2 ^ 52 * second ≤ 2 ^ 52 * 2 ^ (second.log2 + 1) :=
              Nat.mul_le_mul_left _ Nat.lt_log2_self.le
          _ = 2 ^ (53 + second.log2) := by ring
          _ ≤ 2 ^ (first.log2 + count) := Nat.pow_le_pow_right two_pos enough
          _ = 2 ^ first.log2 * 2 ^ count := pow_add ..
          _ ≤ first * 2 ^ count := Nat.mul_le_mul_right _ (Nat.log2_self_le first_pos.ne')
      have bits := (Nat.le_log2 (by omega)).2 full
      omega
  · have scales : (2 : ℚ) ^ (firstExponent - secondExponent) = 2 ^ count * 2 ^ scale := by
      rw [← zpow_natCast, ← zpow_add₀ two_ne_zero, shift]
      congr 1
      omega
    rw [scales] at holds
    have moved : ((first * 2 ^ count : ℕ) : ℚ) / second * 2 ^ scale =
        first / second * (2 ^ count * 2 ^ scale) := by
      push_cast
      ring
    rw [moved]
    exact holds

/-- A decimal number that is not out of all proportion is rounded to its double. -/
theorem unpacked_ofScientific_eq (canonical : IsCanonical significand exponent) {digits : Nat}
    (positive : 0 < digits) {place : Int} (place_le : place ≤ 2 ^ 11)
    (le_place : -(2 ^ 11 + digits.log2) ≤ place)
    (holds : (RoundingInterval.ofParts significand exponent).Holds (digits * 10 ^ place)) :
    UnpackedFloat.ofScientific Format.binary64 digits place =
      .finite .positive significand exponent canonical.positive := by
  rw [UnpackedFloat.ofScientific, dif_neg positive.ne', if_neg (Int.not_lt.2 place_le),
    if_neg (Int.not_lt.2 le_place)]
  split
  case isTrue nonneg =>
    have shifted : digits <<< Format.binary64.mantissaBits = digits * 2 ^ 53 := Nat.shiftLeft_eq ..
    have power : (10 : ℚ) ^ place = (10 ^ place.toNat : ℕ) := by
      obtain ⟨count, rfl⟩ := Int.eq_ofNat_of_zero_le nonneg
      simp
    apply mul_eq canonical
    · have := Nat.mul_le_mul (Nat.mul_le_mul_right (2 ^ 53) positive)
        (Nat.one_le_pow place.toNat 10 (by omega))
      rw [shifted]
      omega
    · have unit : (2 : ℚ) ^ (-(Format.binary64.mantissaBits : Int) + 0) = (2 ^ 53)⁻¹ := by
        rw [add_zero, zpow_neg]
        rfl
      rw [shifted, unit]
      push_cast
      rw [power] at holds
      push_cast at holds
      convert holds using 1
      ring
  case isFalse negative =>
    have power : (10 : ℚ) ^ place = ((10 ^ (-place).toNat : ℕ) : ℚ)⁻¹ := by
      obtain ⟨count, count_eq⟩ := Int.eq_ofNat_of_zero_le (show 0 ≤ -place by omega)
      obtain rfl : place = -(count : Int) := by omega
      simp
    apply div_eq canonical
    rw [sub_zero, zpow_zero, mul_one, div_eq_mul_inv, ← power]
    exact holds

end Operations

section Whole

variable {significand : Nat} {exponent : Int}

/-- A double rounds to itself. -/
theorem RoundingInterval.holds_self (positive : 0 < significand) :
    (RoundingInterval.ofParts significand exponent).Holds (significand * 2 ^ exponent) := by
  have scaled : (significand : ℚ) * 2 ^ exponent = (4 * significand : ℕ) *
      2 ^ (RoundingInterval.ofParts significand exponent).quarter := by
    have split := two_zpow_add 0 exponent
    rw [Nat.cast_zero, zero_add] at split
    change _ = (4 * significand : ℕ) * (2 : ℚ) ^ (exponent - 2)
    rw [split]
    push_cast
    ring
  have low : (RoundingInterval.ofParts significand exponent).low < 4 * significand := by
    have := low_ofParts positive exponent
    omega
  have high : 4 * significand < (RoundingInterval.ofParts significand exponent).high := by
    rw [high_ofParts]
    omega
  rw [scaled, holds_mul_iff]
  norm_cast
  exact ⟨low.le, high.le, fun _ => ⟨low.ne, high.ne⟩⟩

/-- The parts of a whole number with few enough digits. -/
theorem isCanonical_of_lt {digits : Nat} (positive : 0 < digits) (fits : digits < 2 ^ 53) :
    IsCanonical (digits * 2 ^ (52 - digits.log2)) (digits.log2 - 52) := by
  have bits : digits.log2 < 53 := (Nat.log2_lt positive.ne').2 fits
  have lower := Nat.mul_le_mul_right (2 ^ (52 - digits.log2)) (Nat.log2_self_le positive.ne')
  have upper := Nat.mul_lt_mul_of_pos_right (@Nat.lt_log2_self digits)
    (show 0 < 2 ^ (52 - digits.log2) by positivity)
  rw [← pow_add] at lower upper
  rw [show digits.log2 + (52 - digits.log2) = 52 by omega] at lower
  rw [show digits.log2 + 1 + (52 - digits.log2) = 53 by omega] at upper
  exact ⟨by omega, upper, by omega, .inl lower⟩

theorem full_value {digits : Nat} (positive : 0 < digits) (fits : digits < 2 ^ 53) :
    (digits * 2 ^ (52 - digits.log2) : ℕ) * (2 : ℚ) ^ ((digits.log2 : Int) - 52) = digits := by
  have bits : digits.log2 < 53 := (Nat.log2_lt positive.ne').2 fits
  rw [Nat.cast_mul, mul_assoc, Nat.cast_pow, Nat.cast_ofNat, ← zpow_natCast,
    ← zpow_add₀ two_ne_zero,
    show ((52 - digits.log2 : ℕ) : Int) + (digits.log2 - 52) = 0 by omega, zpow_zero, mul_one]

theorem unpack_toFloat {digits : Nat} (positive : 0 < digits) (fits : digits < 2 ^ 53) :
    digits.toUInt64.toFloat.toModel.unpack =
      .finite .positive (digits * 2 ^ (52 - digits.log2)) (digits.log2 - 52)
        (isCanonical_of_lt positive fits).positive := by
  have canonical := isCanonical_of_lt positive fits
  have bits : digits.log2 < 53 := (Nat.log2_lt positive.ne').2 fits
  have toNat_eq : digits.toUInt64.toNat = digits := by
    rw [Nat.toUInt64, UInt64.toNat_ofNat']
    omega
  have order : compare (digits : Int) 0 = .gt := by
    rw [compare_gt_iff_gt]
    omega
  have target : Format.binary64.targetExponent (totalExponent digits 0) = digits.log2 - 52 := by
    rw [targetExponent_eq]
    omega
  have rounded : UnpackedFloat.ofUInt64 Format.binary64 digits.toUInt64 =
      .finite .positive (digits * 2 ^ (52 - digits.log2)) (digits.log2 - 52)
        canonical.positive := by
    rw [UnpackedFloat.ofUInt64, toNat_eq, UnpackedFloat.ofNat, UnpackedFloat.ofInt,
      UnpackedFloat.normalize, order]
    simp only [UnpackedFloat.round, target, decreaseExponent, Int.toNat_natCast]
    rw [show (0 - ((digits.log2 : Int) - 52)).toNat = 52 - digits.log2 by omega, Nat.shiftLeft_eq,
      show (0 - ((52 - digits.log2 : ℕ) : Int)) = digits.log2 - 52 by omega]
    refine roundWithAccuracy_eq canonical (Represents.exact _) ?_
      (RoundingInterval.holds_self canonical.positive) .positive
    rw [targetExponent_eq, log2_of_full (canonical.full.resolve_right (by omega)) canonical.lt]
    omega
  change UnpackedFloat.unpack Format.binary64 (UnpackedFloat.pack Format.binary64
    (UnpackedFloat.ofUInt64 Format.binary64 digits.toUInt64)) = _
  rw [rounded]
  exact unpack_pack canonical (by omega) .positive

end Whole

section Decimals

variable {significand : Nat} {exponent : Int}

/-- Whether the parts are those of a power of ten, the significand having all its bits. -/
def isPowerOfTen (power : Nat) : UnpackedFloat → Bool
  | .finite .positive mantissa scale _ =>
      2 ^ 52 ≤ mantissa && mantissa * 2 ^ scale.toNat == 10 ^ power * 2 ^ (-scale).toNat
  | _ => false

theorem isPowerOfTen_listed : ∀ power : Fin Float.exactlyRepresentablePowersOfTen.size,
    isPowerOfTen power (Float.exactlyRepresentablePowersOfTen[power]).toModel.unpack = true := by
  decide +kernel

theorem exists_of_isPowerOfTen {power : Nat} {parts : UnpackedFloat}
    (isPower : isPowerOfTen power parts = true) :
    ∃ (mantissa : Nat) (scale : Int) (positive : 0 < mantissa),
      parts = .finite .positive mantissa scale positive ∧ 2 ^ 52 ≤ mantissa ∧
        (mantissa : ℚ) * 2 ^ scale = 10 ^ power := by
  rcases parts with _ | _ | _ | ⟨sign, mantissa, scale, positive⟩
  case finite =>
    cases sign with
    | negative => simp [isPowerOfTen] at isPower
    | positive =>
        simp only [isPowerOfTen, Bool.and_eq_true, decide_eq_true_eq, beq_iff_eq] at isPower
        rcases isPower with ⟨full, same⟩
        refine ⟨mantissa, scale, positive, rfl, full, ?_⟩
        have scales : (2 : ℚ) ^ scale = 2 ^ scale.toNat / 2 ^ (-scale).toNat := by
          rw [eq_div_iff (by positivity), ← zpow_natCast, ← zpow_natCast,
            ← zpow_add₀ two_ne_zero]
          congr 1
          omega
        rw [scales, mul_div_assoc', div_eq_iff (by positivity)]
        exact_mod_cast same
  all_goals simp [isPowerOfTen] at isPower

/-- The powers of ten that are exact doubles. -/
theorem exists_unpack_powerOfTen {power : Nat}
    (listed : power < Float.exactlyRepresentablePowersOfTen.size) :
    ∃ (mantissa : Nat) (scale : Int) (positive : 0 < mantissa),
      (Float.exactlyRepresentablePowersOfTen[power]).toModel.unpack =
          .finite .positive mantissa scale positive ∧
        2 ^ 52 ≤ mantissa ∧ (mantissa : ℚ) * 2 ^ scale = 10 ^ power :=
  exists_of_isPowerOfTen (isPowerOfTen_listed ⟨power, listed⟩)

theorem float_ofScientific_eq (canonical : IsCanonical significand exponent)
    {digits : Nat} (positive : 0 < digits) {place : Int}
    (place_le : place ≤ 2 ^ 11) (le_place : -(2 ^ 11 + digits.log2) ≤ place)
    (holds : (RoundingInterval.ofParts significand exponent).Holds (digits * 10 ^ place)) :
    Float.ofScientific digits (place < 0) place.natAbs =
      .ofModel (.pack (.finite .positive significand exponent canonical.positive)) := by
  rw [Float.ofScientific]
  split
  case isTrue small =>
    rcases small with ⟨fits, listed⟩
    have whole := unpack_toFloat positive fits
    have isCanonical := isCanonical_of_lt positive fits
    have listed_lt : place.natAbs < Float.exactlyRepresentablePowersOfTen.size :=
      Nat.lt_succ_of_le listed
    rcases exists_unpack_powerOfTen listed_lt with
      ⟨mantissa, scale, mantissa_pos, unpacked, full, power⟩
    have value := full_value positive fits
    split
    case isTrue negative =>
      rw [decide_eq_true_eq] at negative
      change Float.ofModel (.pack (UnpackedFloat.div Format.binary64 _ _)) = _
      rw [whole, unpacked, div_eq canonical]
      have divided : (10 : ℚ) ^ place = ((mantissa : ℚ) * 2 ^ scale)⁻¹ := by
        rw [power, ← zpow_natCast, ← zpow_neg]
        congr 1
        omega
      rw [divided, ← value] at holds
      rw [zpow_sub₀ two_ne_zero]
      convert holds using 1
      field_simp
    case isFalse nonneg =>
      rw [decide_eq_true_eq] at nonneg
      change Float.ofModel (.pack (UnpackedFloat.mul Format.binary64 _ _)) = _
      rw [whole, unpacked, mul_eq canonical]
      · exact full.trans (Nat.le_mul_of_pos_left _ isCanonical.positive)
      · have multiplied : (10 : ℚ) ^ place = mantissa * 2 ^ scale := by
          rw [power, ← zpow_natCast]
          congr 1
          omega
        rw [multiplied, ← value] at holds
        rw [zpow_add₀ two_ne_zero]
        convert holds using 1
        ring
  case isFalse =>
    have signed : (if decide (place < 0) = true then Int.negOfNat place.natAbs
        else Int.ofNat place.natAbs) = place := by
      split
      case isTrue negative =>
        rw [decide_eq_true_eq] at negative
        rw [Int.negOfNat_eq, Int.ofNat_eq_natCast]
        omega
      case isFalse nonneg =>
        rw [decide_eq_true_eq] at nonneg
        rw [Int.ofNat_eq_natCast]
        omega
    simp only [signed]
    rw [Float.Model.ofScientific,
      unpacked_ofScientific_eq canonical positive place_le le_place holds]

theorem lt_pow_length (number : Nat) : number < 10 ^ (Nat.toDigits 10 number).length :=
  (Nat.length_toDigits_le_iff (by omega) Nat.length_toDigits_pos).1 le_rfl

theorem length_toDigits_le_log2 {number : Nat} (positive : 0 < number) :
    (Nat.toDigits 10 number).length ≤ number.log2 + 1 := by
  have below := (Nat.pow_le_pow_left (show 2 ≤ 10 by omega) _).trans_lt
    ((pow_length_le positive).trans_lt Nat.lt_log2_self)
  have := (Nat.pow_lt_pow_iff_right (by omega)).1 below
  omega

/-- The place of the first digit of a number that rounds to a double is within the range of the
doubles. -/
theorem place_of_holds (canonical : IsCanonical significand exponent) (finite : exponent ≤ 971)
    {digits : Nat} (positive : 0 < digits) {scale : Int}
    (holds : (RoundingInterval.ofParts significand exponent).Holds (digits * 10 ^ scale)) :
    -324 < (Nat.toDigits 10 digits).length + scale ∧
      (Nat.toDigits 10 digits).length + scale ≤ 309 := by
  have nonempty := @Nat.length_toDigits_pos 10 digits
  constructor
  · have low : 2 ≤ (RoundingInterval.ofParts significand exponent).low := by
      have := RoundingInterval.low_ofParts canonical.positive exponent
      omega
    have above : (2 : ℚ) ^ (-1075 : Int) ≤ digits * 10 ^ scale := by
      calc (2 : ℚ) ^ (-1075 : Int) = 2 * 2 ^ (-1076 : Int) := zpow_one_add₀ two_ne_zero (-1076)
        _ ≤ (RoundingInterval.ofParts significand exponent).low * 2 ^ (exponent - 2) := by
          have := canonical.least_le
          gcongr
          · exact_mod_cast low
          · norm_num
          · omega
        _ ≤ _ := holds.1
    have below : (digits : ℚ) * 10 ^ scale < 10 ^ ((Nat.toDigits 10 digits).length + scale) := by
      rw [zpow_add₀ (by norm_num), zpow_natCast]
      exact mul_lt_mul_of_pos_right (by exact_mod_cast lt_pow_length digits) (by positivity)
    have least : (10 : ℚ) ^ (-324 : Int) < 2 ^ (-1075 : Int) := by
      have powers : 2 ^ 1075 < 10 ^ 324 := by decide +kernel
      rw [zpow_neg, zpow_neg, inv_lt_inv₀ (by positivity) (by positivity)]
      exact_mod_cast powers
    exact (zpow_lt_zpow_iff_right₀ (by norm_num)).1 (least.trans_le (above.trans below.le))
  · have below : (digits : ℚ) * 10 ^ scale < 2 ^ (1024 : Int) := by
      refine (canonical.lt_of_holds holds).trans_le ?_
      rw [zpow_le_zpow_iff_right₀ one_lt_two]
      omega
    have above :
        (10 : ℚ) ^ ((Nat.toDigits 10 digits).length - 1 + scale) ≤ digits * 10 ^ scale := by
      rw [zpow_add₀ (by norm_num)]
      refine mul_le_mul_of_nonneg_right ?_ (by positivity)
      rw [show ((Nat.toDigits 10 digits).length - 1 : Int) =
        ((Nat.toDigits 10 digits).length - 1 : ℕ) by omega, zpow_natCast]
      exact_mod_cast pow_length_le positive
    have most : (2 : ℚ) ^ (1024 : Int) < 10 ^ (309 : Int) := by
      have powers : 2 ^ 1024 < 10 ^ 309 := by decide +kernel
      exact_mod_cast powers
    have := (zpow_lt_zpow_iff_right₀ (by norm_num)).1 (above.trans_lt (below.trans most))
    omega

/-- A decimal number that lies in the interval of a double is read as this double. -/
theorem nearestDouble_eq (canonical : IsCanonical significand exponent) (finite : exponent ≤ 971)
    {digits : Nat} (positive : 0 < digits) {scale : Int}
    (holds : (RoundingInterval.ofParts significand exponent).Holds (digits * 10 ^ scale))
    (sign : Sign) :
    nearestDouble (isNegative sign) digits scale =
      .ofModel (.pack (.finite sign significand exponent canonical.positive)) := by
  have place := place_of_holds canonical finite positive holds
  have bits := length_toDigits_le_log2 positive
  have magnitude := float_ofScientific_eq canonical positive (by omega) (by omega) holds
  have inside : ¬(digits = 0 ∨ (Nat.toDigits 10 digits).length + scale < -330) := by omega
  have within : ¬310 < (Nat.toDigits 10 digits).length + scale := by omega
  rw [nearestDouble, if_neg inside, if_neg within, magnitude]
  cases sign with
  | positive => rfl
  | negative =>
      change Float.ofModel (.pack (UnpackedFloat.neg (UnpackedFloat.unpack Format.binary64
        (UnpackedFloat.pack Format.binary64 _)))) = _
      rw [unpack_pack canonical finite .positive]
      rfl

theorem ofModel_pack (value : Float) : Float.ofModel (.pack value.toModel.unpack) = value :=
  Float.ofBits_toBits value

/-- Any decimal number that lies in the interval of a double is read as this double. -/
theorem nearestDouble_eq_self {value : Float} {sign : Sign} {significand : Nat} {exponent : Int}
    {significand_pos : 0 < significand}
    (unpacked : value.toModel.unpack = .finite sign significand exponent significand_pos)
    {digits : Nat} (positive : 0 < digits) {scale : Int}
    (holds : (RoundingInterval.ofParts significand exponent).Holds (digits * 10 ^ scale)) :
    nearestDouble (isNegative sign) digits scale = value := by
  rcases isCanonical_of_unpack unpacked with ⟨canonical, finite⟩
  rw [nearestDouble_eq canonical finite positive holds sign, ← unpacked, ofModel_pack]

end Decimals

end HingeLoss.Decimal
