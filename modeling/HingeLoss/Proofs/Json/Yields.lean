import HingeLoss.Json.Value
import HingeLoss.Proofs.Decimal.Finite
import HingeLoss.Proofs.Failure

/-!
# What readers return

A property of all values that a reader returns holds because it holds of what its last step
returns, whatever the steps before have read.
-/

namespace HingeLoss.Json.Reader

open Decimal

variable {α β σ : Type}

/-- Every value that the reader returns has the property. -/
def Yields (reader : Reader α) (property : α → Prop) : Prop :=
  ∀ source value rest, reader.run source = .ok (value, rest) → property value

section Steps

variable {property : α → Prop} {first : Reader β} {next : β → Reader α}

theorem yields_pure {value : α} (holds : property value) :
    Yields (pure value : Reader α) property := by
  intro source found rest run
  cases run
  exact holds

theorem yields_throw (fault : Fault) : Yields (throw fault : Reader α) property := by
  intro source value rest run
  cases run

theorem yields_lift {step : Except Fault α}
    (returns : ∀ value, step = .ok value → property value) :
    Yields (liftM step : Reader α) property := by
  intro source value rest run
  cases step with
  | error fault => cases run
  | ok found =>
      cases run
      exact returns _ rfl

theorem Yields.bind {before : β → Prop} (yields : Yields first before)
    (each : ∀ value, before value → Yields (next value) property) :
    Yields (first >>= next) property := by
  intro source value rest run
  rw [StateT.run_bind, bind_eq_ok_iff] at run
  rcases run with ⟨⟨found, middle⟩, first_run, next_run⟩
  exact each found (yields source found middle first_run) middle value rest next_run

theorem yields_any (reader : Reader α) : Yields reader fun _ => True :=
  fun _ _ _ _ => trivial

/-- What the first reader returns does not matter. -/
theorem yields_bind (each : ∀ value, Yields (next value) property) :
    Yields (first >>= next) property :=
  (yields_any first).bind fun value _ => each value

theorem Yields.of_runWhole {reader : Reader α} (yields : Yields reader property) {source : Source}
    {value : α} (ran : runWhole reader source = .ok value) : property value := by
  rw [runWhole, bind_eq_ok_iff] at ran
  rcases ran with ⟨⟨found, rest⟩, run, ended⟩
  dsimp only at ended
  split at ended
  · cases ended
    exact yields source value rest run
  · cases ended

end Steps

section Numbers

theorem isFinite_of_ofParts {negative : Bool} {digits : Nat} {exponent : Int} {number : Number}
    (parts : Number.ofParts negative digits exponent = .ok number) :
    number.toFloat.isFinite = true := by
  have isNumber := isNaN_nearestDouble negative digits exponent
  rw [Number.ofParts] at parts
  split at parts
  case isTrue => cases parts
  case isFalse notInfinite =>
    rw [Bool.not_eq_true] at notInfinite
    cases parts
    generalize nearestDouble negative digits exponent = value at *
    change value.toModel.unpack.isNaN = false at isNumber
    change value.toModel.unpack.isInf = false at notInfinite
    change value.toModel.unpack.isFinite = true
    cases unpacked : value.toModel.unpack with
    | notANumber => simp [unpacked, Float.Model.UnpackedFloat.isNaN] at isNumber
    | infinity sign => simp [unpacked, Float.Model.UnpackedFloat.isInf] at notInfinite
    | zero sign => rfl
    | finite sign significand exponent positive => rfl

theorem isFinite_of_ofWhole {negative : Bool} {value : Nat} {number : Number}
    (whole : Number.ofWhole negative value = .ok number) : number.toFloat.isFinite = true := by
  rw [Number.ofWhole] at whole
  split at whole
  case isTrue =>
    split at whole
    case isTrue small =>
      cases whole
      have small' : value ≤ 2 ^ 63 := small.2
      exact isFinite_nearestDouble (small'.trans_lt (by norm_num)) .negative
    case isFalse => exact isFinite_of_ofParts whole
  case isFalse =>
    split at whole
    case isTrue small =>
      cases whole
      have small' : value < 2 ^ 64 := small
      exact isFinite_nearestDouble small' .positive
    case isFalse => exact isFinite_of_ofParts whole

theorem yields_number : Yields number fun found => found.toFloat.isFinite = true := by
  have unsigned (negative : Bool) :
      Yields (unsignedNumber negative) fun found => found.toFloat.isFinite = true := by
    unfold unsignedNumber
    refine yields_bind fun whole => yields_bind fun places => yields_bind fun exponent => ?_
    dsimp only
    split
    · exact yields_lift fun found => isFinite_of_ofWhole
    · exact yields_lift fun found => isFinite_of_ofParts
  unfold number
  refine yields_bind fun source => ?_
  split
  · exact yields_bind fun _ => unsigned true
  · exact unsigned false

theorem yields_refuse {property : α → Prop} (wanted : String) :
    Yields (refuse wanted) property := by
  unfold refuse
  refine yields_bind fun next => ?_
  split
  case h_1 =>
    repeat' split
    all_goals first
      | exact yields_throw _
      | exact yields_bind fun _ => yields_throw _
  case h_2 => exact yields_throw _

/-- Every double that is read is finite. -/
theorem yields_float : Yields float fun value => value.isFinite = true := by
  unfold float
  refine yields_bind fun next => ?_
  split
  · exact yields_throw _
  · split
    · exact yields_number.bind fun found finite => yields_pure finite
    · exact yields_refuse _

theorem yields_optionalFloat :
    Yields optionalFloat fun found => ∀ value ∈ found, value.isFinite = true := by
  unfold optionalFloat
  refine yields_bind fun next => ?_
  split
  · exact yields_bind fun _ => yields_pure (by simp)
  · exact yields_float.bind fun value finite => yields_pure (by simpa using finite)

end Numbers

section Structures

variable {property : α → Prop}

theorem Yields.nextElement {element : Reader α} (yields : Yields element property) (first : Bool) :
    Yields (nextElement element first) fun found => ∀ value ∈ found, property value := by
  have some_found : Yields (element >>= fun found => pure (some found))
      fun found => ∀ value ∈ found, property value :=
    yields.bind fun value holds => yields_pure (by simpa using holds)
  unfold Reader.nextElement
  refine yields_bind fun next => ?_
  split
  · exact yields_throw _
  · exact yields_pure (by simp)
  · split
    · exact some_found
    · split
      · refine yields_bind fun _ => yields_bind fun next => ?_
        split
        · exact yields_throw _
        · exact yields_throw _
        · exact some_found
      · exact yields_throw _

theorem Yields.elements {element : Reader α} (yields : Yields element property) (fuel : Nat)
    (first : Bool) :
    Yields (elements element fuel first) fun found => ∀ value ∈ found, property value := by
  induction fuel generalizing first with
  | zero => exact yields_throw _
  | succ fuel ih =>
      unfold Reader.elements
      refine (yields.nextElement first).bind fun head holds => ?_
      split
      · exact yields_pure (by simp)
      · refine (ih false).bind fun tail each => yields_pure ?_
        rw [List.forall_mem_cons]
        exact ⟨holds _ rfl, each⟩

theorem Yields.list {element : Reader α} (yields : Yields element property) (depth : Nat) :
    Yields (list depth element) fun found => ∀ value ∈ found, property value := by
  have body : Yields (listBody element) fun found => ∀ value ∈ found, property value := by
    unfold listBody
    refine yields_bind fun source => (yields.elements _ _).bind fun found each => ?_
    exact yields_bind fun _ => yields_pure each
  unfold Reader.list
  refine yields_bind fun next => ?_
  split
  · exact yields_throw _
  · exact yields_bind fun _ => body
  · exact yields_refuse _

theorem yields_recordBody {member : String → σ → Reader σ} {start : σ} {property : σ → Prop}
    (each : ∀ key collected, property collected → Yields (member key collected) property)
    (holds : property start) : Yields (recordBody member start) property := by
  have collected (fuel : Nat) (first : Bool) (before : σ) (holds : property before) :
      Yields (members member fuel first before) property := by
    induction fuel generalizing first before with
    | zero => exact yields_throw _
    | succ fuel ih =>
        unfold members
        refine yields_bind fun next => ?_
        split
        · exact yields_pure holds
        · exact (each _ _ holds).bind fun after holds => ih false after holds
  unfold recordBody
  exact yields_bind fun source => collected _ _ _ holds

theorem Yields.field {value : Reader β} {found : β → Prop} {property : σ → Prop}
    (yields : Yields value found) (name : String) (already : Option β) (store : β → σ)
    (stored : ∀ read, found read → property (store read)) :
    Yields (field name already value store) property := by
  have given : Yields (value >>= fun read => pure (store read)) property :=
    yields.bind fun read holds => yields_pure (stored read holds)
  unfold Reader.field
  split
  · exact yields_bind fun _ => yields_bind fun _ => given
  · exact yields_bind fun _ => given

theorem yields_unknownField {collected : σ} {property : σ → Prop} (holds : property collected) :
    Yields (unknownField collected) property :=
  yields_bind fun _ => yields_bind fun _ => yields_pure holds

theorem yields_record {keyed listed : Reader α} (depth : Nat) (wanted : String)
    (byKey : Yields keyed property) (inOrder : Yields listed property) :
    Yields (record depth wanted keyed listed) property := by
  unfold record
  refine yields_bind fun next => ?_
  split
  · exact yields_throw _
  · exact yields_bind fun _ => inOrder.bind fun _ holds => yields_bind fun _ => yields_pure holds
  · exact yields_bind fun _ => byKey.bind fun _ holds => yields_bind fun _ => yields_pure holds
  · exact yields_refuse _

end Structures

end HingeLoss.Json.Reader
