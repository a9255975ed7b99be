import HingeLoss.Proofs.Decimal.Reading
import HingeLoss.Proofs.Json.Numerals
import Mathlib.Algebra.Ring.Int.Defs

/-!
# Numerals of whole numbers

A whole number has one numeral, the digits of its absolute value behind a minus sign if it is
negative. It is read as the number as long as 64 bits can hold it, and as a double beyond.
-/

namespace HingeLoss.Json

open Decimal

section Digits

variable {digits : List Char}

theorem digitChar_of_isDigit {digit : Char} (isDigit : digit.isDigit = true) :
    digit.toNat - '0'.toNat < 10 ∧ (digit.toNat - '0'.toNat).digitChar = digit := by
  have range := toNat_of_isDigit isDigit
  have small : digit.toNat - '0'.toNat < 10 := by
    change digit.toNat - 48 < 10
    omega
  refine ⟨small, ?_⟩
  rw [← Char.toNat_inj, Nat.toNat_digitChar_of_lt_ten small]
  change 48 + (digit.toNat - 48) = _
  omega

/-- Digits that are added to a number are put behind its own. -/
theorem toDigits_foldl_addDigit {value : Nat} (positive : 0 < value)
    (allDigits : AllDigits digits) :
    Nat.toDigits 10 (digits.foldl addDigit value) = Nat.toDigits 10 value ++ digits := by
  induction digits generalizing value with
  | nil => exact (List.append_nil _).symm
  | cons digit rest ih =>
      rw [AllDigits, List.forall_mem_cons] at allDigits
      rcases digitChar_of_isDigit allDigits.1 with ⟨small, same⟩
      have first : Nat.toDigits 10 value ++ [digit] = Nat.toDigits 10 (addDigit value digit) := by
        rw [addDigit, ← Nat.toDigits_append_toDigits (by omega) positive small,
          Nat.toDigits_of_lt_base small, same]
      have next : 0 < addDigit value digit := by
        rw [addDigit]
        omega
      rw [List.foldl_cons, ih next allDigits.2, ← first, List.append_assoc, List.singleton_append]

/-- Digits without a leading zero are those of their value. -/
theorem toDigits_digitsValue (nonempty : digits ≠ [])
    (allDigits : AllDigits digits) (leading : digits.head? = some '0' → digits = ['0']) :
    Nat.toDigits 10 (digitsValue digits) = digits := by
  cases digits with
  | nil => exact absurd rfl nonempty
  | cons first rest =>
      by_cases zero : first = '0'
      · subst zero
        rw [leading rfl]
        rfl
      -- The first digit is a positive number, behind which the others are put.
      · rw [AllDigits, List.forall_mem_cons] at allDigits
        rcases digitChar_of_isDigit allDigits.1 with ⟨small, same⟩
        have positive : 0 < first.toNat - '0'.toNat := by
          by_contra none
          rw [Nat.eq_zero_of_not_pos none] at same
          exact zero same.symm
        have value_eq : digitsValue (first :: rest) =
            rest.foldl addDigit (first.toNat - '0'.toNat) := by
          rw [digitsValue, List.foldl_cons, Nat.mul_zero, Nat.zero_add]
          rfl
        rw [value_eq, toDigits_foldl_addDigit positive allDigits.2, Nat.toDigits_of_lt_base small,
          same]
        rfl

end Digits

/-- The whole number that was read, if it was one that 64 bits can hold. -/
def Number.whole? : Number → Option Int
  | .natural value => some value
  | .negative magnitude => some (-magnitude)
  | .float _ => none

theorem Number.whole?_of_ofParts {negative : Bool} {digits : Nat} {exponent : Int} {found : Number}
    (parts : Number.ofParts negative digits exponent = .ok found) : found.whole? = none := by
  rw [ofParts] at parts
  split at parts
  case isTrue => exact nomatch parts
  case isFalse =>
    obtain rfl := Except.ok.inj parts
    rfl

/-- The numeral of a whole number. A zero has no sign. -/
structure WholeNumeral where
  negative : Bool
  digits : List Char
  nonempty : digits ≠ []
  allDigits : AllDigits digits
  leading : digits.head? = some '0' → digits = ['0']
  unsignedZero : negative = true → digits ≠ ['0']

namespace WholeNumeral

variable {numeral other : WholeNumeral}

def text (numeral : WholeNumeral) : String :=
  String.ofList (signText numeral.negative ++ numeral.digits)

def value (numeral : WholeNumeral) : Int :=
  if numeral.negative then -(digitsValue numeral.digits : Int) else digitsValue numeral.digits

/-- Sixty-four bits can hold the number, if need be without a sign. -/
def InRange (numeral : WholeNumeral) : Prop :=
  -2 ^ 63 ≤ numeral.value ∧ numeral.value ≤ 2 ^ 64 - 1

instance : Decidable numeral.InRange :=
  inferInstanceAs (Decidable (-2 ^ 63 ≤ numeral.value ∧ numeral.value ≤ 2 ^ 64 - 1))

theorem digits_eq (numeral : WholeNumeral) :
    Nat.toDigits 10 (digitsValue numeral.digits) = numeral.digits :=
  toDigits_digitsValue numeral.nonempty numeral.allDigits numeral.leading

theorem digitsValue_pos (negative : numeral.negative = true) :
    0 < digitsValue numeral.digits := by
  by_contra none
  apply numeral.unsignedZero negative
  rw [← numeral.digits_eq, Nat.eq_zero_of_not_pos none]
  rfl

/-- The numeral is the one that is written for its number. -/
theorem text_eq (numeral : WholeNumeral) : numeral.text = toString numeral.value := by
  have repr_eq : (digitsValue numeral.digits).repr = String.ofList numeral.digits := by
    rw [Nat.repr_eq_ofList_toDigits, digits_eq]
  rw [Int.toString_eq_repr, Int.repr_eq_if, value, text]
  cases sign : numeral.negative with
  | false =>
      rw [if_neg Bool.false_ne_true, if_pos (Int.natCast_nonneg _), Int.toNat_natCast, repr_eq]
      rfl
  | true =>
      have positive := digitsValue_pos sign
      rw [if_pos rfl, if_neg (by omega), Int.neg_neg, Int.toNat_natCast, repr_eq, signText,
        if_pos rfl, String.ofList_append]

theorem splitSign_text (numeral : WholeNumeral) :
    splitSign numeral.text.toList = (numeral.negative, numeral.digits) := by
  have unsigned := numeral.allDigits.unsigned
  rw [text, String.toList_ofList, signText]
  cases numeral.negative with
  | true => exact splitSign_append .minus unsigned
  | false => exact splitSign_append .absent unsigned

theorem text_inj : numeral.text = other.text ↔ numeral.value = other.value := by
  constructor
  · intro same
    have parts := numeral.splitSign_text
    rw [same, other.splitSign_text, Prod.mk.injEq] at parts
    rw [value, value, parts.1, parts.2]
  · intro same
    rw [text_eq, text_eq, same]

theorem begins (numeral : WholeNumeral) :
    ∃ first others, numeral.text.toList = first :: others ∧
      (first = '-' ∨ first.isDigit = true) := by
  rw [text, String.toList_ofList]
  cases numeral.negative with
  | true => exact ⟨'-', _, rfl, .inl rfl⟩
  | false =>
      cases digits_eq : numeral.digits with
      | nil => exact absurd digits_eq numeral.nonempty
      | cons first others =>
          refine ⟨first, others, rfl, .inr (numeral.allDigits first ?_)⟩
          rw [digits_eq]
          exact List.mem_cons_self

/-- What the numeral is read as. -/
def number (numeral : WholeNumeral) : Except Fault Number :=
  Number.ofWhole numeral.negative (digitsValue numeral.digits)

theorem exists_number_of_inRange (inRange : numeral.InRange) :
    ∃ found, numeral.number = .ok found ∧ found.whole? = some numeral.value := by
  rcases inRange with ⟨least, most⟩
  rw [number, Number.ofWhole]
  cases sign : numeral.negative with
  | true =>
      have positive := digitsValue_pos sign
      have within : digitsValue numeral.digits ≤ Number.signedLimit := by
        rw [value, sign, if_pos rfl] at least
        change _ ≤ 2 ^ 63
        omega
      rw [if_pos rfl, if_pos ⟨positive, within⟩, value, sign, if_pos rfl]
      exact ⟨_, rfl, rfl⟩
  | false =>
      have within : digitsValue numeral.digits < Number.unsignedLimit := by
        rw [value, sign, if_neg Bool.false_ne_true] at most
        change _ < 2 ^ 64
        omega
      rw [if_neg Bool.false_ne_true, if_pos within, value, sign, if_neg Bool.false_ne_true]
      exact ⟨_, rfl, rfl⟩

theorem inRange_of_number {found : Number} {whole : Int} (read : numeral.number = .ok found)
    (isWhole : found.whole? = some whole) : numeral.InRange := by
  have noParts {exponent : Int} {negative : Bool} {digits : Nat} :
      Number.ofParts negative digits exponent ≠ .ok found := by
    intro parts
    rw [Number.whole?_of_ofParts parts] at isWhole
    exact nomatch isWhole
  rw [number, Number.ofWhole] at read
  rw [InRange, value]
  split at read
  case isTrue negative =>
    split at read
    case isTrue within =>
      rw [if_pos negative]
      have most : digitsValue numeral.digits ≤ 2 ^ 63 := within.2
      omega
    case isFalse => exact absurd read noParts
  case isFalse natural =>
    split at read
    case isTrue within =>
      rw [if_neg natural]
      have most : digitsValue numeral.digits < 2 ^ 64 := within
      omega
    case isFalse => exact absurd read noParts

end WholeNumeral

namespace Reader

theorem run_liftM {α : Type} (step : Except Fault α) (rest : Source) :
    (liftM step : Reader α).run rest = step.map fun value => (value, rest) := by
  cases step <;> rfl

theorem run_number_whole (numeral : WholeNumeral) {rest : Source} (closes : Closes rest) :
    Reader.number.run (sourceOf numeral.text ++ rest) =
      numeral.number.map fun number => (number, rest) := by
  rcases ends_of_closes closes with ⟨stops, noPoint, noMark⟩
  have whole := run_wholeDigits numeral.nonempty numeral.allDigits numeral.leading stops
  have noFraction : fraction.run rest = .ok (none, rest) :=
    @run_fraction [] rest nofun stops noPoint
  have noExponent : exponent.run rest = .ok (none, rest) := run_exponent none stops noMark
  have starts : ∀ first ∈ numeral.digits.head?, first ≠ '-' :=
    fun first mem => (numeral.allDigits.unsigned first mem).1
  rw [WholeNumeral.text, sourceOf, String.toList_ofList, run_number_signed starts numeral.nonempty,
    unsignedNumber, StateT.run_bind, whole, ok_bind, StateT.run_bind, noFraction, ok_bind,
    StateT.run_bind, noExponent, ok_bind]
  exact run_liftM _ rest

end Reader

end HingeLoss.Json
