import HingeLoss.Decimal.Binary
import HingeLoss.Proofs.Decimal.Rounding

/-!
# The parts of a double

The bits of a finite double and its parts determine each other. The parts that writing works on are
those of the library's model of doubles.
-/

namespace HingeLoss.Decimal

open Float.Model Float.Model.UnpackedFloat

section Bits

variable (bits : BitVec Format.binary64.numBits)

theorem toNat_unpackMantissa : (unpackMantissa bits).toNat = bits.toNat % 2 ^ 52 := by
  simp [unpackMantissa]

theorem toNat_unpackExponent : (unpackExponent bits).toNat = bits.toNat / 2 ^ 52 % 2 ^ 11 := by
  simp [unpackExponent, Nat.shiftRight_eq_div_pow]

theorem toNat_unpackSign : (unpackSign bits).toNat = bits.toNat / 2 ^ 63 := by
  have bound : bits.toNat < 2 ^ 64 := bits.isLt
  simp [unpackSign, Nat.shiftRight_eq_div_pow]
  omega

theorem toNat_implicit (mantissa : BitVec 52) :
    (1#1 ++ mantissa).toNat = 2 ^ 52 + mantissa.toNat := by
  rw [BitVec.toNat_append, ← Nat.shiftLeft_add_eq_or_of_lt mantissa.isLt]
  rfl

theorem log2_of_full {significand : Nat} (full : 2 ^ 52 ≤ significand) (lt : significand < 2 ^ 53) :
    significand.log2 = 52 := by
  have nonzero : significand ≠ 0 := by omega
  have lower := (Nat.le_log2 nonzero).2 full
  have upper := (Nat.log2_lt nonzero).2 lt
  omega

theorem pack_normal (sign : Sign) {significand biased : Nat} {exponent : Int}
    (full : 2 ^ 52 ≤ significand) (lt : significand < 2 ^ 53) (positive : 0 < significand)
    (fits : biased + 1 < 2 ^ 11) (exponent_eq : exponent = biased - 1075) :
    UnpackedFloat.pack Format.binary64 (.finite sign significand exponent positive) =
      packComponents Format.binary64 sign (BitVec.ofNat 11 biased)
        (BitVec.ofNat 52 significand) := by
  have bias : (exponent + Format.binary64.exponentBias +
      Format.binary64.mantissaBitsWithoutImplicit).toNat = biased := by
    rw [exponent_eq]
    simp only [Format.exponentBias]
    omega
  have inside : ¬2 ^ Format.binary64.exponentBits ≤ biased + 1 := Nat.not_le.2 fits
  have bits : significand.log2 + 1 = Format.binary64.mantissaBits := by
    rw [log2_of_full full lt]
    rfl
  simp only [UnpackedFloat.pack, bias, if_neg inside, if_pos bits]

theorem pack_subnormal (sign : Sign) {significand : Nat} (lt : significand < 2 ^ 52)
    (positive : 0 < significand) :
    UnpackedFloat.pack Format.binary64 (.finite sign significand (-1074) positive) =
      packComponents Format.binary64 sign 0 (BitVec.ofNat 52 significand) := by
  have bits : ¬significand.log2 + 1 = Format.binary64.mantissaBits := by
    have := (Nat.log2_lt positive.ne').2 lt
    simp only [Format.mantissaBits]
    omega
  have inside : ¬2 ^ Format.binary64.exponentBits ≤
      (-1074 + Format.binary64.exponentBias +
        Format.binary64.mantissaBitsWithoutImplicit : Int).toNat + 1 := by decide
  simp only [UnpackedFloat.pack, if_neg inside, if_neg bits]
  rfl

end Bits

/-- Unpacking what the parts of a double were packed into. -/
theorem unpack_pack {significand : Nat} {exponent : Int}
    (canonical : IsCanonical significand exponent) (finite : exponent ≤ 971) (sign : Sign) :
    UnpackedFloat.unpack Format.binary64
        (UnpackedFloat.pack Format.binary64
          (.finite sign significand exponent canonical.positive)) =
      .finite sign significand exponent canonical.positive := by
  have positive := canonical.positive
  have lt := canonical.lt
  have least := canonical.least_le
  have signs : Sign.ofBitVec sign.toBitVec = sign := by cases sign <;> rfl
  by_cases full : 2 ^ 52 ≤ significand
  · obtain ⟨biased, exponent_eq⟩ : ∃ biased : Nat, exponent = biased - 1075 :=
      ⟨(exponent + 1075).toNat, by omega⟩
    have biased_toNat : (BitVec.ofNat 11 biased).toNat = biased := by
      rw [BitVec.toNat_ofNat, Nat.mod_eq_of_lt (by omega)]
    have notTop : BitVec.ofNat 11 biased ≠ -1#11 := by
      intro top
      have same : biased = 2047 := biased_toNat.symm.trans (congrArg BitVec.toNat top)
      omega
    have notBottom : BitVec.ofNat 11 biased ≠ 0#11 := by
      intro bottom
      have same : biased = 0 := biased_toNat.symm.trans (congrArg BitVec.toNat bottom)
      omega
    have significand_eq : (1#1 ++ BitVec.ofNat 52 significand).toNat = significand := by
      rw [toNat_implicit, BitVec.toNat_ofNat]
      omega
    rw [pack_normal sign full lt positive (by omega) exponent_eq, UnpackedFloat.unpack]
    simp only [unpackMantissa_packComponents, unpackExponent_packComponents,
      unpackSign_packComponents, if_neg notTop, if_neg notBottom, signs, significand_eq,
      biased_toNat, exponent_eq]
    rfl
  · have isLeast := canonical.full.resolve_left full
    subst isLeast
    have significand_toNat : (BitVec.ofNat 52 significand).toNat = significand := by
      rw [BitVec.toNat_ofNat, Nat.mod_eq_of_lt (by omega)]
    have nonzero : BitVec.ofNat 52 significand ≠ 0#52 := by
      intro zero
      have same : significand = 0 := significand_toNat.symm.trans (congrArg BitVec.toNat zero)
      omega
    have notTop : (0 : BitVec 11) ≠ -1#11 := by decide
    rw [pack_subnormal sign (by omega) positive, UnpackedFloat.unpack]
    simp only [unpackMantissa_packComponents, unpackExponent_packComponents,
      unpackSign_packComponents, if_neg notTop, dif_neg nonzero, signs, significand_toNat]
    rfl

def isNegative : Sign → Bool
  | .negative => true
  | .positive => false

/-- The parts of a double as the library's model of doubles gives them. -/
def Binary.ofUnpacked : UnpackedFloat → Binary
  | .notANumber => .notANumber
  | .infinity sign => .infinite (isNegative sign)
  | .zero sign => .finite (isNegative sign) 0 leastExponent
  | .finite sign significand exponent _ => .finite (isNegative sign) significand exponent

theorem isNegative_ofBitVec (bit : BitVec 1) :
    isNegative (Sign.ofBitVec bit) = (bit.toNat == 1) := by
  decide +revert

theorem Binary.ofFloat_eq (value : Float) :
    Binary.ofFloat value = Binary.ofUnpacked value.toModel.unpack := by
  obtain ⟨bits, toNat_eq, unpack_eq⟩ : ∃ bits : BitVec Format.binary64.numBits,
      value.toBits.toNat = bits.toNat ∧
        value.toModel.unpack = UnpackedFloat.unpack Format.binary64 bits :=
    ⟨value.toModel.toBits.toBitVec, rfl, rfl⟩
  have exponent_eq : (unpackExponent bits).toNat = bits.toNat / normalSignificand % Nat.pow 2 11 :=
    toNat_unpackExponent bits
  have mantissa_eq : (unpackMantissa bits).toNat = bits.toNat % normalSignificand :=
    toNat_unpackMantissa bits
  have sign_eq : (unpackSign bits).toNat = bits.toNat / Nat.pow 2 63 := toNat_unpackSign bits
  have top_iff : unpackExponent bits = -1#_ ↔ (unpackExponent bits).toNat = Nat.pow 2 11 - 1 :=
    ⟨fun same => congrArg BitVec.toNat same, fun same => BitVec.eq_of_toNat_eq same⟩
  have bottom_iff : unpackExponent bits = 0#_ ↔ (unpackExponent bits).toNat = 0 :=
    ⟨fun same => congrArg BitVec.toNat same, fun same => BitVec.eq_of_toNat_eq same⟩
  have empty_iff : unpackMantissa bits = 0#_ ↔ (unpackMantissa bits).toNat = 0 :=
    ⟨fun same => congrArg BitVec.toNat same, fun same => BitVec.eq_of_toNat_eq same⟩
  rw [Binary.ofFloat, toNat_eq, unpack_eq, UnpackedFloat.unpack]
  simp only [← exponent_eq, ← mantissa_eq, ← sign_eq, top_iff, bottom_iff, empty_iff,
    ← isNegative_ofBitVec]
  split
  case isTrue => split <;> rfl
  case isFalse =>
    split
    case isTrue isBottom =>
      split
      case isTrue isZero =>
        rw [isZero]
        rfl
      case isFalse =>
        simp only [isBottom]
        rfl
    case isFalse notBottom =>
      have implicit := toNat_implicit (unpackMantissa bits)
      have exponent_shift : leastExponent + ((unpackExponent bits).toNat - 1 : Nat) =
          (unpackExponent bits).toNat - 1075 := by
        rw [leastExponent]
        omega
      simp only [implicit, exponent_shift]
      rfl

theorem isCanonical_of_unpack {value : Float} {sign : Sign} {significand : Nat} {exponent : Int}
    {positive : 0 < significand}
    (unpacked : value.toModel.unpack = .finite sign significand exponent positive) :
    IsCanonical significand exponent ∧ exponent ≤ 971 := by
  obtain ⟨bits, unpack_eq⟩ : ∃ bits : BitVec Format.binary64.numBits,
      value.toModel.unpack = UnpackedFloat.unpack Format.binary64 bits :=
    ⟨value.toModel.toBits.toBitVec, rfl⟩
  have exponent_lt : (unpackExponent bits).toNat < 2 ^ 11 := (unpackExponent bits).isLt
  have mantissa_lt : (unpackMantissa bits).toNat < 2 ^ 52 := (unpackMantissa bits).isLt
  rw [unpack_eq, UnpackedFloat.unpack] at unpacked
  dsimp only at unpacked
  split at unpacked
  case isTrue => split at unpacked <;> simp at unpacked
  case isFalse notTop =>
    split at unpacked
    case isTrue isBottom =>
      split at unpacked
      case isTrue => simp at unpacked
      case isFalse =>
        rw [isBottom, finite.injEq] at unpacked
        rcases unpacked with ⟨-, rfl, exponent_eq⟩
        change (-1074 : Int) = exponent at exponent_eq
        refine ⟨⟨positive, by omega, by omega, by omega⟩, by omega⟩
    case isFalse notBottom =>
      rw [finite.injEq, toNat_implicit] at unpacked
      rcases unpacked with ⟨-, rfl, exponent_eq⟩
      change ((unpackExponent bits).toNat - 1075 : Int) = exponent at exponent_eq
      have lower : (unpackExponent bits).toNat ≠ 0 :=
        fun bottom => notBottom (BitVec.eq_of_toNat_eq bottom)
      have upper : (unpackExponent bits).toNat ≠ 2 ^ 11 - 1 :=
        fun top => notTop (BitVec.eq_of_toNat_eq top)
      refine ⟨⟨positive, by omega, by omega, by omega⟩, by omega⟩

end HingeLoss.Decimal
