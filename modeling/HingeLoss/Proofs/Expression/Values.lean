import HingeLoss.Expression.Evaluation
import HingeLoss.Proofs.Expression.Nodes
import HingeLoss.Proofs.Scalar

/-!
# Values of expressions

Evaluation fails only for want of a value for a variable. Where every variable has one, an
expression has the value `valueAt`, which is what the proofs compute with: it is total, and a sum
may be taken apart at either end.
-/

namespace HingeLoss

/-- The assignment that gives every variable the value it has at a point. -/
def Assignment.ofPoint {K : Type} (point : VarId → K) : Assignment K := fun id => some (point id)

namespace Expression

section Covered

variable {K : Type} [Scalar K]

theorem evalSum_congr {left right : Assignment K} {terms : List (Expression K)}
    (same : ∀ term ∈ terms, term.eval left = term.eval right) (accumulated : K) :
    evalSum left accumulated terms = evalSum right accumulated terms := by
  induction terms generalizing accumulated with
  | nil => simp only [evalSum]
  | cons term rest ih =>
      rw [List.forall_mem_cons] at same
      simp only [evalSum, same.1, ih same.2]

/-- Only the variables that occur matter. -/
theorem eval_congr {expression : Expression K} {left right : Assignment K}
    (agree : ∀ id ∈ expression.occurrences, left id = right id) :
    expression.eval left = expression.eval right := by
  induction expression with
  | var leaf => simpa [eval, occurrences] using agree
  | const value => simp only [eval]
  | add first second ihFirst ihSecond =>
      simp only [occurrences, List.mem_append] at agree
      simp only [eval, ihFirst fun id member => agree id (.inl member),
        ihSecond fun id member => agree id (.inr member)]
  | neg body ih => simp only [eval, ih agree]
  | mul first second ihFirst ihSecond =>
      simp only [occurrences, List.mem_append] at agree
      simp only [eval, ihFirst fun id member => agree id (.inl member),
        ihSecond fun id member => agree id (.inr member)]
  | sum terms ih =>
      have same : ∀ term ∈ terms, term.eval left = term.eval right := by
        intro term term_mem
        apply ih term term_mem
        intro id id_mem
        exact agree id (mem_listOccurrences.2 ⟨term, term_mem, id_mem⟩)
      simp only [eval, evalSum_congr same]
  | pos body ih => simp only [eval, ih agree]
  | square body ih => simp only [eval, ih agree]

theorem isSome_evalSum_iff {assignment : Assignment K} {terms : List (Expression K)}
    (accumulated : K) :
    (evalSum assignment accumulated terms).isSome ↔
      ∀ term ∈ terms, (term.eval assignment).isSome := by
  induction terms generalizing accumulated with
  | nil => simp [evalSum]
  | cons term rest ih =>
      rw [evalSum, List.forall_mem_cons]
      cases term.eval assignment with
      | none => simp
      | some value => simp [ih]

omit [Scalar K] in
theorem isSome_bind_map {first second : Option K} (combine : K → K → K) :
    (first.bind fun value => second.map (combine value)).isSome ↔
      first.isSome ∧ second.isSome := by
  cases first <;> simp

/-- An expression has a value exactly where all of its variables have one, also those whose values
do not matter. -/
theorem isSome_eval_iff {expression : Expression K} {assignment : Assignment K} :
    (expression.eval assignment).isSome ↔
      ∀ id ∈ expression.occurrences, (assignment id).isSome := by
  induction expression with
  | var leaf => simp [eval, occurrences]
  | const value => simp [eval, occurrences]
  | add left right ihLeft ihRight =>
      rw [eval, isSome_bind_map, ihLeft, ihRight, occurrences, List.forall_mem_append]
  | neg body ih => rw [eval, Option.isSome_map, ih, occurrences]
  | mul left right ihLeft ihRight =>
      rw [eval, isSome_bind_map, ihLeft, ihRight, occurrences, List.forall_mem_append]
  | sum terms ih =>
      rw [eval, isSome_evalSum_iff, occurrences]
      simp only [mem_listOccurrences]
      constructor
      · rintro evaluated id ⟨term, term_mem, id_mem⟩
        exact (ih term term_mem).1 (evaluated term term_mem) id id_mem
      · intro covered term term_mem
        exact (ih term term_mem).2 fun id id_mem => covered id ⟨term, term_mem, id_mem⟩
  | pos body ih => rw [eval, Option.isSome_map, ih, occurrences]
  | square body ih => rw [eval, Option.isSome_map, ih, occurrences]

end Covered

mutual

/-- The value of an expression when each variable has the given value. -/
def valueAt (point : VarId → ℚ) : Expression ℚ → ℚ
  | .var leaf => point leaf.id
  | .const value => value
  | .add left right => left.valueAt point + right.valueAt point
  | .neg body => -body.valueAt point
  | .mul left right => left.valueAt point * right.valueAt point
  | .sum terms => sumAt point terms
  | .pos body => max (body.valueAt point) 0
  | .square body => body.valueAt point * body.valueAt point

def sumAt (point : VarId → ℚ) : List (Expression ℚ) → ℚ
  | [] => 0
  | term :: rest => term.valueAt point + sumAt point rest

end

theorem sumAt_append (point : VarId → ℚ) (terms rest : List (Expression ℚ)) :
    sumAt point (terms ++ rest) = sumAt point terms + sumAt point rest := by
  induction terms with
  | nil => simp [sumAt]
  | cons term terms ih =>
      simp only [List.cons_append, sumAt, ih]
      ring

@[simp]
theorem valueAt_sum_snoc (point : VarId → ℚ) (terms : List (Expression ℚ))
    (term : Expression ℚ) :
    (sum (terms ++ [term])).valueAt point = (sum terms).valueAt point + term.valueAt point := by
  simp [valueAt, sumAt_append, sumAt]

variable {assignment : Assignment ℚ} {point : VarId → ℚ}

theorem evalSum_eq_sumAt {terms : List (Expression ℚ)}
    (evaluated : ∀ term ∈ terms, term.eval assignment = some (term.valueAt point))
    (accumulated : ℚ) :
    evalSum assignment accumulated terms = some (accumulated + sumAt point terms) := by
  induction terms generalizing accumulated with
  | nil => simp [evalSum, sumAt]
  | cons term rest ih =>
      have fromRest := ih (fun other member => evaluated other (by simp [member]))
      simp only [evalSum, evaluated term (by simp), Option.bind_some, fromRest, sumAt, add_assoc]

/-- An assignment that covers the variables of an expression determines its value. -/
theorem eval_eq_valueAt {expression : Expression ℚ}
    (agrees : ∀ id ∈ expression.occurrences, assignment id = some (point id)) :
    expression.eval assignment = some (expression.valueAt point) := by
  induction expression with
  | var leaf => simp [eval, valueAt, agrees leaf.id (by simp [occurrences])]
  | const value => rfl
  | add left right ihLeft ihRight =>
      simp only [occurrences, List.mem_append] at agrees
      simp [eval, valueAt, ihLeft (fun id member => agrees id (.inl member)),
        ihRight (fun id member => agrees id (.inr member))]
  | neg body ih => simp [eval, valueAt, ih agrees]
  | mul left right ihLeft ihRight =>
      simp only [occurrences, List.mem_append] at agrees
      simp [eval, valueAt, ihLeft (fun id member => agrees id (.inl member)),
        ihRight (fun id member => agrees id (.inr member))]
  | sum terms ih =>
      have evaluated : ∀ term ∈ terms, term.eval assignment = some (term.valueAt point) := by
        intro term term_mem
        apply ih term term_mem
        intro id id_mem
        exact agrees id (mem_listOccurrences.2 ⟨term, term_mem, id_mem⟩)
      simp [eval, valueAt, evalSum_eq_sumAt evaluated]
  | pos body ih => simp [eval, valueAt, ih agrees]
  | square body ih => simp [eval, valueAt, ih agrees]

@[simp]
theorem eval_ofPoint (expression : Expression ℚ) (point : VarId → ℚ) :
    expression.eval (.ofPoint point) = some (expression.valueAt point) :=
  eval_eq_valueAt fun _ _ => rfl

theorem valueAt_congr {expression : Expression ℚ} {left right : VarId → ℚ}
    (agree : ∀ id ∈ expression.occurrences, left id = right id) :
    expression.valueAt left = expression.valueAt right := by
  have evaluated : expression.eval (.ofPoint left) = some (expression.valueAt right) :=
    eval_eq_valueAt fun id member => congrArg some (agree id member)
  rw [eval_ofPoint] at evaluated
  exact Option.some.inj evaluated

end Expression

end HingeLoss
