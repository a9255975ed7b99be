import HingeLoss.Expression.Curvature
import HingeLoss.Proofs.Expression.Nodes
import HingeLoss.Proofs.Expression.Values

/-!
# Relabelled expressions

Variables are told apart by numbers, and their names are for people. A relabelling gives a variable
another number and another name, and leaves alone what is known of its sign. Everything that the
rules of disciplined convex programming look at is the same before and after.
-/

namespace HingeLoss

/-- New numbers and new names for variables. -/
structure Relabelling where
  ids : VarId → VarId
  names : String → String

def Variable.relabel (relabelling : Relabelling) (leaf : Variable) : Variable :=
  ⟨relabelling.ids leaf.id, leaf.name.map relabelling.names, leaf.nonneg⟩

namespace Expression

variable {K : Type} {relabelling other : Relabelling}

mutual

def relabel (relabelling : Relabelling) : Expression K → Expression K
  | .var leaf => .var (leaf.relabel relabelling)
  | .const value => .const value
  | .add left right => .add (left.relabel relabelling) (right.relabel relabelling)
  | .neg body => .neg (body.relabel relabelling)
  | .mul left right => .mul (left.relabel relabelling) (right.relabel relabelling)
  | .sum terms => .sum (relabelAll relabelling terms)
  | .pos body => .pos (body.relabel relabelling)
  | .square body => .square (body.relabel relabelling)

def relabelAll (relabelling : Relabelling) : List (Expression K) → List (Expression K)
  | [] => []
  | term :: rest => term.relabel relabelling :: relabelAll relabelling rest

end

@[simp]
theorem relabelAll_eq_map (terms : List (Expression K)) :
    relabelAll relabelling terms = terms.map (relabel relabelling) := by
  induction terms with
  | nil => rfl
  | cons term rest ih => rw [relabelAll, ih, List.map_cons]

@[simp]
theorem relabel_sum (terms : List (Expression K)) :
    (Expression.sum terms).relabel relabelling = .sum (terms.map (relabel relabelling)) := by
  rw [relabel, relabelAll_eq_map]

@[simp]
theorem constant?_relabel (expression : Expression K) :
    (expression.relabel relabelling).constant? = expression.constant? := by
  cases expression <;> simp [relabel, constant?]

theorem listOccurrences_map_relabel {terms : List (Expression K)}
    (each : ∀ term ∈ terms,
      (term.relabel relabelling).occurrences = term.occurrences.map relabelling.ids) :
    listOccurrences (terms.map (relabel relabelling)) =
      (listOccurrences terms).map relabelling.ids := by
  induction terms with
  | nil => rfl
  | cons term rest ih =>
      have fromRest := ih fun other member => each other (List.mem_cons_of_mem _ member)
      simp only [List.map_cons, listOccurrences, List.map_append, fromRest,
        each term List.mem_cons_self]

@[simp]
theorem occurrences_relabel (expression : Expression K) :
    (expression.relabel relabelling).occurrences =
      expression.occurrences.map relabelling.ids := by
  induction expression with
  | var leaf => rfl
  | const value => rfl
  | add left right ihLeft ihRight => simp [relabel, occurrences, ihLeft, ihRight]
  | neg body ih => exact ih
  | mul left right ihLeft ihRight => simp [relabel, occurrences, ihLeft, ihRight]
  | sum terms ih =>
      rw [relabel_sum]
      exact listOccurrences_map_relabel ih
  | pos body ih => exact ih
  | square body ih => exact ih

/-- Only the numbers of the variables that occur matter. -/
theorem relabel_congr {expression : Expression K}
    (sameIds : ∀ id ∈ expression.occurrences, relabelling.ids id = other.ids id)
    (sameNames : relabelling.names = other.names) :
    expression.relabel relabelling = expression.relabel other := by
  induction expression with
  | var leaf =>
      have sameId := sameIds leaf.id (by simp [occurrences])
      simp only [relabel, Variable.relabel, sameId, sameNames]
  | const value => rfl
  | add left right ihLeft ihRight =>
      simp only [occurrences, List.mem_append] at sameIds
      simp only [relabel, ihLeft fun id member => sameIds id (.inl member),
        ihRight fun id member => sameIds id (.inr member)]
  | neg body ih => simp only [relabel, ih sameIds]
  | mul left right ihLeft ihRight =>
      simp only [occurrences, List.mem_append] at sameIds
      simp only [relabel, ihLeft fun id member => sameIds id (.inl member),
        ihRight fun id member => sameIds id (.inr member)]
  | sum terms ih =>
      rw [relabel_sum, relabel_sum]
      congr 1
      apply List.map_congr_left
      intro term term_mem
      apply ih term term_mem
      intro id id_mem
      exact sameIds id (mem_listOccurrences.2 ⟨term, term_mem, id_mem⟩)
  | pos body ih => simp only [relabel, ih sameIds]
  | square body ih => simp only [relabel, ih sameIds]

theorem relabel_weightedSum (offset : K) (terms : List (K × Expression K)) :
    (weightedSum offset terms).relabel relabelling =
      weightedSum offset (terms.map fun entry => (entry.1, entry.2.relabel relabelling)) := by
  rw [weightedSum, relabel_sum, weightedSum, List.map_cons, List.map_map, List.map_map]
  rfl

theorem relabel_hinge (expression : Expression K) (squared : Bool) :
    (expression.hinge squared).relabel relabelling =
      (expression.relabel relabelling).hinge squared := by
  cases squared <;> rfl

section Rules

variable [Scalar K]

theorem relabel_sumOf (terms : List (Expression K)) :
    (sumOf terms).relabel relabelling = sumOf (terms.map (relabel relabelling)) := by
  match terms with
  | [] => rfl
  | [term] => rfl
  | first :: second :: rest => exact relabel_sum _

theorem sumSign_map_relabel {terms : List (Expression K)}
    (each : ∀ term ∈ terms, (term.relabel relabelling).sign = term.sign) (accumulated : Sign) :
    sumSign accumulated (terms.map (relabel relabelling)) = sumSign accumulated terms := by
  induction terms generalizing accumulated with
  | nil => rfl
  | cons term rest ih =>
      have fromRest := ih fun other member => each other (List.mem_cons_of_mem _ member)
      simp only [List.map_cons, sumSign, fromRest, each term List.mem_cons_self]

@[simp]
theorem sign_relabel (expression : Expression K) :
    (expression.relabel relabelling).sign = expression.sign := by
  induction expression with
  | var leaf => rfl
  | const value => rfl
  | add left right ihLeft ihRight => simp only [relabel, sign, ihLeft, ihRight]
  | neg body ih => simp only [relabel, sign, ih]
  | mul left right ihLeft ihRight => simp only [relabel, sign, ihLeft, ihRight]
  | sum terms ih =>
      rw [relabel_sum]
      exact sumSign_map_relabel ih .zero
  | pos body ih => rfl
  | square body ih => rfl

theorem sumCurvature_map_relabel {terms : List (Expression K)}
    (each : ∀ term ∈ terms, (term.relabel relabelling).curvature = term.curvature)
    (accumulated : Curvature) :
    sumCurvature accumulated (terms.map (relabel relabelling)) =
      sumCurvature accumulated terms := by
  induction terms generalizing accumulated with
  | nil => rfl
  | cons term rest ih =>
      have fromRest := ih fun other member => each other (List.mem_cons_of_mem _ member)
      simp only [List.map_cons, sumCurvature, fromRest, each term List.mem_cons_self]

@[simp]
theorem curvature_relabel (expression : Expression K) :
    (expression.relabel relabelling).curvature = expression.curvature := by
  induction expression with
  | var leaf => rfl
  | const value => rfl
  | add left right ihLeft ihRight => simp only [relabel, curvature, ihLeft, ihRight]
  | neg body ih => simp only [relabel, curvature, ih]
  | mul left right ihLeft ihRight =>
      simp only [relabel, curvature, ihLeft, ihRight, constant?_relabel]
  | sum terms ih =>
      rw [relabel_sum]
      exact sumCurvature_map_relabel ih .constant
  | pos body ih => simp only [relabel, curvature, ih]
  | square body ih => simp only [relabel, curvature, ih, sign_relabel]

end Rules

theorem exists_relabel_eq_const {expression : Expression K} :
    (∃ value, expression.relabel relabelling = .const value) ↔
      ∃ value, expression = .const value := by
  simp only [← constant?_eq_some, constant?_relabel]

@[simp]
theorem hasLiteralProducts_relabel {expression : Expression K} :
    (expression.relabel relabelling).HasLiteralProducts ↔ expression.HasLiteralProducts := by
  induction expression with
  | var leaf => simp [relabel]
  | const value => simp [relabel]
  | add left right ihLeft ihRight => simp [relabel, ihLeft, ihRight]
  | neg body ih => simp [relabel, ih]
  | mul left right ihLeft ihRight =>
      simp only [relabel, hasLiteralProducts_mul, exists_relabel_eq_const, ihLeft, ihRight]
  | sum terms ih =>
      simp only [relabel_sum, hasLiteralProducts_sum, List.forall_mem_map]
      exact forall₂_congr ih
  | pos body ih => simp [relabel, ih]
  | square body ih => simp [relabel, ih]

end Expression

end HingeLoss
