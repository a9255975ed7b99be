import HingeLoss.Proofs.Decimal.Nearest
import HingeLoss.Proofs.Json.Numerals

/-!
# Doubles that are written and read again

However the digits of a number are laid out, written out with zeros, split by a point or in
scientific notation, what is written is a numeral of this number. As the digits were chosen to lie
in the interval of the double, the reader rounds the numeral back to it.
-/

namespace HingeLoss.Json

open Decimal

namespace Numeral

/-- The number that the numeral denotes. -/
def number (numeral : Numeral) : ℚ :=
  numeral.digits * 10 ^ numeral.scale

section Values

theorem digitsValue_append (first second : List Char) :
    digitsValue (first ++ second) =
      digitsValue first * 10 ^ second.length + digitsValue second := by
  have split : digitsValue (first ++ second) =
      Nat.ofDigitChars 10 second (digitsValue first) := Nat.ofDigitChars_append 0
  rw [split, Nat.ofDigitChars_eq_ofDigitChars_zero, mul_comm]
  rfl

@[simp]
theorem digitsValue_zeros (count : Nat) : digitsValue (List.replicate count '0') = 0 := by
  have zeros : digitsValue (List.replicate count '0') = 10 ^ count * 0 :=
    Nat.ofDigitChars_replicate_zero
  rw [zeros, mul_zero]

@[simp]
theorem digitsValue_zero : digitsValue ['0'] = 0 := rfl

@[simp]
theorem digitsValue_text (number : Digits) : digitsValue number.text = number.digits :=
  Nat.ofDigitChars_ten_toDigits

theorem isDigit_text {number : Digits} {digit : Char} (mem : digit ∈ number.text) :
    digit.isDigit = true :=
  Nat.isDigit_of_mem_toDigits (by omega) (by omega) mem

theorem isDigit_replicate {count : Nat} {digit : Char} (mem : digit ∈ List.replicate count '0') :
    digit.isDigit = true := by
  rw [List.eq_of_mem_replicate mem]
  rfl

theorem head_toDigits {value : Nat} (positive : 0 < value) :
    (Nat.toDigits 10 value).head? ≠ some '0' := by
  induction value using Nat.strongRecOn with
  | ind value ih =>
      by_cases small : value < 10
      · rw [Nat.toDigits_of_lt_base small]
        simpa using positive.ne'
      · have rest := ih (value / 10) (by omega) (by omega)
        rw [Nat.toDigits_of_base_le (by omega) (by omega)]
        rwa [List.head?_append_of_ne_nil _ Nat.toDigits_ne_nil]

end Values

section Layouts

variable {number : Digits}

/-- The characters are a numeral of the number. -/
def Writes (characters : List Char) (number : Digits) : Prop :=
  ∃ numeral : Numeral, numeral.WellFormed ∧ characters = numeral.text ∧
    numeral.number = number.number

theorem WellFormed.writes {numeral : Numeral} (wellFormed : numeral.WellFormed) (zeros : Nat)
    (digits : numeral.digits = number.digits * 10 ^ zeros)
    (scale : numeral.scale + zeros = number.exponent) : Writes numeral.text number := by
  refine ⟨numeral, wellFormed, rfl, ?_⟩
  rw [Numeral.number, Digits.number, digits, ← scale, zpow_add₀ (by norm_num), zpow_natCast]
  push_cast
  ring

theorem fractionText_of_ne_nil {places : List Char} (nonempty : places ≠ []) :
    fractionText places = '.' :: places := by
  cases places with
  | nil => exact absurd rfl nonempty
  | cons => rfl

theorem writes_small {zeros : Nat} (exponent : number.exponent = -(zeros + number.text.length)) :
    Writes ('0' :: '.' :: (List.replicate zeros '0' ++ number.text)) number := by
  have nonempty : List.replicate zeros '0' ++ number.text ≠ [] := by simp [Digits.text]
  have wellFormed : WellFormed ⟨['0'], List.replicate zeros '0' ++ number.text, none⟩ := by
    constructor
    case nonempty => simp
    case whole => simp
    case leading => simp
    case places =>
      intro digit mem
      rcases List.mem_append.1 mem with zero | other
      · exact isDigit_replicate zero
      · exact isDigit_text other
    case decimal => exact .inl nonempty
  have writes : Writes _ number := wellFormed.writes 0
    (by
      rw [digits, digitsValue_append, digitsValue_append]
      simp)
    (by simp [scale, exponent])
  simpa [text, fractionText_of_ne_nil nonempty, exponentText] using writes

theorem writes_whole {zeros : Nat} (positive : 0 < number.digits)
    (exponent : number.exponent = zeros) :
    Writes (number.text ++ List.replicate zeros '0' ++ ['.', '0']) number := by
  have nonempty : number.text ≠ [] := Nat.toDigits_ne_nil
  have wellFormed : WellFormed ⟨number.text ++ List.replicate zeros '0', ['0'], none⟩ := by
    constructor
    case nonempty => simp [nonempty]
    case whole =>
      intro digit mem
      rcases List.mem_append.1 mem with other | zero
      · exact isDigit_text other
      · exact isDigit_replicate zero
    case leading =>
      rw [List.head?_append_of_ne_nil _ nonempty]
      intro zero
      exact absurd zero (head_toDigits positive)
    case places => simp
    case decimal => simp
  have value : number.digits * 10 ^ zeros * 10 = number.digits * 10 ^ (zeros + 1) := by ring
  have writes : Writes _ number := wellFormed.writes (zeros + 1)
    (by
      rw [digits, digitsValue_append, digitsValue_append, ← value]
      simp)
    (by simp [scale, exponent])
  simpa [text, fractionText, exponentText] using writes

theorem writes_split {place : Nat} (positive : 0 < number.digits) (lower : 0 < place)
    (upper : place < number.text.length) (exponent : number.exponent = place - number.text.length) :
    Writes (number.text.take place ++ '.' :: number.text.drop place) number := by
  have nonempty : number.text ≠ [] := Nat.toDigits_ne_nil
  have rest : number.text.drop place ≠ [] := by simpa using upper
  have wellFormed : WellFormed ⟨number.text.take place, number.text.drop place, none⟩ := by
    constructor
    case nonempty => simp [nonempty, lower.ne']
    case whole => exact fun digit mem => isDigit_text (List.mem_of_mem_take mem)
    case leading =>
      rw [List.head?_take, if_neg lower.ne']
      intro zero
      exact absurd zero (head_toDigits positive)
    case places => exact fun digit mem => isDigit_text (List.mem_of_mem_drop mem)
    case decimal => exact .inl rest
  have writes : Writes _ number := wellFormed.writes 0
    (by rw [digits, List.take_append_drop, digitsValue_text, pow_zero, mul_one])
    (by simp [scale, exponent, upper.le])
  simpa [text, fractionText_of_ne_nil rest, exponentText] using writes

theorem writes_writtenOut (positive : 0 < number.digits) :
    Writes (NumeralStyle.json.writtenOut number).toList number := by
  have place : number.pointPlace = number.text.length + number.exponent := rfl
  rw [NumeralStyle.writtenOut]
  split
  case isTrue =>
    simp only [String.toList_append, String.toList_ofList]
    exact writes_small (by omega)
  case isFalse =>
    split
    case isTrue =>
      rw [String.toList_append, String.toList_ofList]
      exact writes_whole positive (by omega)
    case isFalse =>
      simp only [String.toList_append, String.toList_ofList, List.append_assoc]
      exact writes_split positive (by omega) (by omega) (by omega)

theorem writes_scientific (number : Digits) :
    Writes (NumeralStyle.json.scientific number).toList number := by
  have isDigit := @isDigit_text number
  have value := digitsValue_text number
  have place : number.pointPlace = number.text.length + number.exponent := rfl
  rw [NumeralStyle.scientific]
  cases text_eq : number.text with
  | nil => exact absurd text_eq Nat.toDigits_ne_nil
  | cons first others =>
      rw [text_eq] at isDigit value place
      have wellFormed : WellFormed ⟨[first], others, some (number.pointPlace - 1)⟩ := by
        constructor
        case nonempty => simp
        case whole => simpa using isDigit List.mem_cons_self
        case leading => simp
        case places => exact fun digit mem => isDigit (List.mem_cons_of_mem _ mem)
        case decimal => simp
      have writes : Writes _ number := wellFormed.writes 0
        (by
          rw [digits, pow_zero, mul_one]
          exact value)
        (by
          rw [List.length_cons] at place
          simp [scale]
          omega)
      have mark : (if number.pointPlace - 1 < 0 then "-"
          else if NumeralStyle.json.signedExponent then "+" else "").toList =
            [if number.pointPlace - 1 < 0 then '-' else '+'] := by
        split <;> rfl
      rw [String.toList_append, String.toList_append, String.toList_append, mark,
        Nat.toString_eq_repr, Nat.toList_repr]
      cases others with
      | nil => simpa [text, fractionText, exponentText] using writes
      | cons next others => simpa [text, fractionText, exponentText] using writes

theorem writes_positive (positive : 0 < number.digits) :
    Writes (NumeralStyle.json.positive number).toList number := by
  change Writes (if -4 ≤ number.pointPlace ∧ number.pointPlace ≤ 16 then
    NumeralStyle.json.writtenOut number else NumeralStyle.json.scientific number).toList number
  split
  · exact writes_writtenOut positive
  · exact writes_scientific number

end Layouts

/-- How a zero is written. -/
def zero : Numeral := ⟨['0'], ['0'], none⟩

theorem wellFormed_zero : zero.WellFormed := by
  constructor <;> simp [zero]

theorem nearestDouble_zero (sign : Float.Model.UnpackedFloat.Sign) :
    nearestDouble (isNegative sign) zero.digits zero.scale = .ofModel (.pack (.zero sign)) := by
  cases sign <;> decide +kernel

end Numeral

namespace Reader

theorem ofParts_eq {value : Float} {negative : Bool} {digits : Nat} {scale : Int}
    (finite : value.isInf = false) (nearest : nearestDouble negative digits scale = value) :
    Number.ofParts negative digits scale = .ok (.float value) := by
  rw [Number.ofParts, nearest, finite]
  rfl

theorem toList_signed (sign : Float.Model.UnpackedFloat.Sign) (text : String) :
    ((if isNegative sign then "-" else "") ++ text).toList =
      signText (isNegative sign) ++ text.toList := by
  rw [String.toList_append]
  cases sign <;> rfl

/-- A finite double is read from what is written for it. -/
theorem reads_writtenFloat {value : Float} (finite : value.isFinite = true) :
    Reads float (writtenFloat value) value ∧
      Reads optionalFloat (writtenFloat value) (some value) := by
  change value.toModel.unpack.isFinite = true at finite
  have notInfinite : value.isInf = false := by
    change value.toModel.unpack.isInf = false
    cases unpacked : value.toModel.unpack <;> simp_all [Float.Model.UnpackedFloat.isFinite,
      Float.Model.UnpackedFloat.isInf]
  rw [writtenFloat, NumeralStyle.render, Binary.ofFloat_eq]
  cases unpacked : value.toModel.unpack with
  | notANumber => simp [unpacked, Float.Model.UnpackedFloat.isFinite] at finite
  | infinity sign => simp [unpacked, Float.Model.UnpackedFloat.isFinite] at finite
  | zero sign =>
      have nearest := Numeral.nearestDouble_zero sign
      rw [← unpacked, ofModel_pack] at nearest
      refine reads_float Numeral.wellFormed_zero (ofParts_eq notInfinite nearest) ?_
      cases sign <;> rfl
  | finite sign significand exponent significand_pos =>
      rcases shortest_holds (isCanonical_of_unpack unpacked).1 with ⟨positive, holds⟩
      rcases Numeral.writes_positive positive with ⟨numeral, wellFormed, text_eq, number_eq⟩
      have digits_pos : 0 < numeral.digits := by
        apply Nat.pos_of_ne_zero
        intro zero
        have nonzero : (shortest significand exponent).number ≠ 0 :=
          mul_ne_zero (by exact_mod_cast positive.ne') (by positivity)
        apply nonzero
        rw [← number_eq, Numeral.number, zero, Nat.cast_zero, zero_mul]
      rw [← number_eq] at holds
      have nearest := nearestDouble_eq_self unpacked digits_pos holds
      have signed := toList_signed sign (NumeralStyle.json.positive (shortest significand exponent))
      rw [text_eq] at signed
      simp only [Binary.ofUnpacked, if_neg significand_pos.ne']
      exact reads_float wellFormed (ofParts_eq notInfinite nearest) signed

end Reader

end HingeLoss.Json
