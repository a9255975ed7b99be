import HingeLoss.Proofs.Scalar.Doubles

/-!
# Numbers up to the sign of a zero

A sum that is added up from zero and a sum that begins with its first term take the same steps after
the first one. Over rational numbers they are equal. Over doubles the first step may turn `-0` into
`0`, which no later step makes any worse: what is added to two zeros of different signs comes out
the same, or as a zero again.
-/

namespace HingeLoss

namespace Scalar

variable {K : Type} [Scalar K]

/-- The numbers are equal, missing ones included, or both of them are zero. -/
def EqOrZeros (left right : K) : Prop := left = right ∨ Same left 0 ∧ Same right 0

namespace EqOrZeros

variable {first second third : K}

theorem refl (value : K) : EqOrZeros value value := .inl rfl

theorem symm (same : EqOrZeros first second) : EqOrZeros second first :=
  same.imp Eq.symm And.symm

theorem trans (same : EqOrZeros first second) (next : EqOrZeros second third) :
    EqOrZeros first third := by
  rcases same with rfl | ⟨firstZero, secondZero⟩
  · exact next
  · rcases next with rfl | ⟨-, thirdZero⟩
    · exact .inr ⟨firstZero, secondZero⟩
    · exact .inr ⟨firstZero, thirdZero⟩

end EqOrZeros

end Scalar

open Scalar (Same EqOrZeros)

/-- Scalars for which adding to a zero changes at most the sign of a zero. -/
class LawfulZero (K : Type) [Scalar K] : Prop where
  same_zero : Same (0 : K) 0
  eqOrZeros_zero_add {zero : K} (isZero : Same zero 0) (value : K) :
    EqOrZeros (zero + value) value

namespace Scalar.EqOrZeros

variable {K : Type} [Scalar K] [LawfulZero K] {left right : K}

theorem zero_add (value : K) : EqOrZeros (0 + value) value :=
  LawfulZero.eqOrZeros_zero_add LawfulZero.same_zero value

theorem add_right (same : EqOrZeros left right) (added : K) :
    EqOrZeros (left + added) (right + added) := by
  rcases same with rfl | ⟨leftZero, rightZero⟩
  · exact refl _
  · exact (LawfulZero.eqOrZeros_zero_add leftZero added).trans
      (LawfulZero.eqOrZeros_zero_add rightZero added).symm

end Scalar.EqOrZeros

section Rationals

@[simp]
theorem Scalar.eqOrZeros_iff_eq {left right : ℚ} : EqOrZeros left right ↔ left = right := by
  rw [EqOrZeros, Scalar.same_iff_eq, Scalar.same_iff_eq, or_iff_left_iff_imp]
  rintro ⟨leftZero, rightZero⟩
  exact leftZero.trans rightZero.symm

theorem Scalar.eq_of_rel_eqOrZeros {left right : Option ℚ}
    (same : Option.Rel EqOrZeros left right) : left = right := by
  cases same with
  | none => rfl
  | some same => exact congrArg some (Scalar.eqOrZeros_iff_eq.1 same)

instance : LawfulZero ℚ where
  same_zero := Scalar.same_iff_eq.2 rfl
  eqOrZeros_zero_add isZero value := by
    rw [Scalar.same_iff_eq.1 isZero, Scalar.eqOrZeros_iff_eq, Rat.zero_add]

end Rationals

section DoublePrecision

open Float.Model Float.Model.UnpackedFloat
open Doubles

theorem Doubles.add_notANumber {value added : Float}
    (missing : added.toModel.unpack = .notANumber) : value + added = added := by
  have parts : UnpackedFloat.add Format.binary64 value.toModel.unpack .notANumber =
      .notANumber := by
    cases value.toModel.unpack <;> rfl
  have sum : value + added = .ofModel (.pack .notANumber) := by
    rw [← parts, ← missing]
    rfl
  rw [sum, ← missing, Decimal.ofModel_pack]

instance : LawfulZero Float where
  same_zero := LawfulArithmetic.same_zero
  eqOrZeros_zero_add {zero} isZero value := by
    by_cases missing : value.toModel.unpack = .notANumber
    · exact .inl (Doubles.add_notANumber missing)
    · have same := (add_of_isZero (same_zero_iff.1 isZero) missing).2
      rcases (same_iff.1 same).2 with equal | ⟨sumZero, valueZero⟩
      · exact .inl equal
      · exact .inr ⟨same_zero_iff.2 sumZero, same_zero_iff.2 valueZero⟩

end DoublePrecision

end HingeLoss
