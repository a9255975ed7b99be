import HingeLoss.Expression.Curvature

/-!
# Nodes of expressions

The nodes of an expression are the expression itself and the nodes of its parts. Assumptions about
an expression are assumptions about all of its nodes: that none of them is an atom, that its
products have a literal factor, or that the variables flagged as nonnegative are so.
-/

namespace HingeLoss

namespace Expression

variable {K : Type}

mutual

/-- An expression, followed by the nodes of its parts. -/
@[simp]
def nodes : Expression K → List (Expression K)
  | .var leaf => [.var leaf]
  | .const value => [.const value]
  | .add left right => .add left right :: (left.nodes ++ right.nodes)
  | .neg body => .neg body :: body.nodes
  | .mul left right => .mul left right :: (left.nodes ++ right.nodes)
  | .sum terms => .sum terms :: listNodes terms
  | .pos body => .pos body :: body.nodes
  | .square body => .square body :: body.nodes

@[simp]
def listNodes : List (Expression K) → List (Expression K)
  | [] => []
  | term :: rest => term.nodes ++ listNodes rest

end

@[simp]
theorem mem_listNodes {terms : List (Expression K)} {node : Expression K} :
    node ∈ listNodes terms ↔ ∃ term ∈ terms, node ∈ term.nodes := by
  induction terms with
  | nil => simp
  | cons term rest ih => simp [ih]

@[simp]
theorem self_mem_nodes (expression : Expression K) : expression ∈ expression.nodes := by
  cases expression <;> simp

/-- The nodes of a part are nodes of the whole. -/
theorem nodes_trans {expression part node : Expression K} (part_mem : part ∈ expression.nodes)
    (node_mem : node ∈ part.nodes) : node ∈ expression.nodes := by
  induction expression with
  | var leaf =>
      rw [nodes, List.mem_singleton] at part_mem
      exact part_mem ▸ node_mem
  | const value =>
      rw [nodes, List.mem_singleton] at part_mem
      exact part_mem ▸ node_mem
  | add left right ihLeft ihRight =>
      rcases List.mem_cons.1 part_mem with rfl | inside
      · exact node_mem
      · exact List.mem_cons_of_mem _
          (List.mem_append.2 ((List.mem_append.1 inside).imp ihLeft ihRight))
  | neg body ih =>
      rcases List.mem_cons.1 part_mem with rfl | inside
      · exact node_mem
      · exact List.mem_cons_of_mem _ (ih inside)
  | mul left right ihLeft ihRight =>
      rcases List.mem_cons.1 part_mem with rfl | inside
      · exact node_mem
      · exact List.mem_cons_of_mem _
          (List.mem_append.2 ((List.mem_append.1 inside).imp ihLeft ihRight))
  | sum terms ih =>
      rcases List.mem_cons.1 part_mem with rfl | inside
      · exact node_mem
      · rcases mem_listNodes.1 inside with ⟨term, term_mem, inTerm⟩
        exact List.mem_cons_of_mem _ (mem_listNodes.2 ⟨term, term_mem, ih term term_mem inTerm⟩)
  | pos body ih =>
      rcases List.mem_cons.1 part_mem with rfl | inside
      · exact node_mem
      · exact List.mem_cons_of_mem _ (ih inside)
  | square body ih =>
      rcases List.mem_cons.1 part_mem with rfl | inside
      · exact node_mem
      · exact List.mem_cons_of_mem _ (ih inside)

theorem constant?_eq_some {expression : Expression K} {value : K} :
    expression.constant? = some value ↔ expression = .const value := by
  cases expression <;> simp [constant?]

/-- Whether the expression is one of the atoms that are replaced by auxiliary variables. -/
def isAtom : Expression K → Bool
  | .pos _ | .square _ => true
  | _ => false

section AtomFree

def IsAtomFree (expression : Expression K) : Prop :=
  ∀ node ∈ expression.nodes, node.isAtom = false

variable {left right body : Expression K} {terms : List (Expression K)}

@[simp]
theorem isAtomFree_var (leaf : Variable) : (var leaf : Expression K).IsAtomFree := by
  simp [IsAtomFree, isAtom]

@[simp]
theorem isAtomFree_const (value : K) : (const value).IsAtomFree := by
  simp [IsAtomFree, isAtom]

@[simp]
theorem isAtomFree_add : (add left right).IsAtomFree ↔ left.IsAtomFree ∧ right.IsAtomFree := by
  simp [IsAtomFree, isAtom, or_imp, forall_and]

@[simp]
theorem isAtomFree_neg : (neg body).IsAtomFree ↔ body.IsAtomFree := by
  simp [IsAtomFree, isAtom]

@[simp]
theorem isAtomFree_mul : (mul left right).IsAtomFree ↔ left.IsAtomFree ∧ right.IsAtomFree := by
  simp [IsAtomFree, isAtom, or_imp, forall_and]

@[simp]
theorem isAtomFree_sum : (sum terms).IsAtomFree ↔ ∀ term ∈ terms, term.IsAtomFree := by
  simp only [IsAtomFree, nodes, List.forall_mem_cons, isAtom, true_and, mem_listNodes]
  constructor
  · intro free term term_mem node node_mem
    exact free node ⟨term, term_mem, node_mem⟩
  · rintro free node ⟨term, term_mem, node_mem⟩
    exact free term term_mem node node_mem

end AtomFree

section Ground

/-- Whether the node takes a column of a program, for itself or for an auxiliary variable. -/
def takesColumn : Expression K → Bool
  | .var _ | .pos _ | .square _ => true
  | _ => false

/-- Neither variables nor atoms occur. -/
def IsGround (expression : Expression K) : Prop :=
  ∀ node ∈ expression.nodes, node.takesColumn = false

theorem IsGround.of_mem_nodes {expression part : Expression K} (ground : expression.IsGround)
    (part_mem : part ∈ expression.nodes) : part.IsGround :=
  fun node node_mem => ground node (nodes_trans part_mem node_mem)

theorem isGround_sum {terms : List (Expression K)} :
    (sum terms).IsGround ↔ ∀ term ∈ terms, term.IsGround := by
  simp only [IsGround, nodes, List.forall_mem_cons, takesColumn, true_and, mem_listNodes]
  constructor
  · intro ground term term_mem node node_mem
    exact ground node ⟨term, term_mem, node_mem⟩
  · rintro ground node ⟨term, term_mem, node_mem⟩
    exact ground term term_mem node node_mem

theorem mem_listOccurrences {terms : List (Expression K)} {id : VarId} :
    id ∈ listOccurrences terms ↔ ∃ term ∈ terms, id ∈ term.occurrences := by
  induction terms with
  | nil => simp [listOccurrences]
  | cons term rest ih => simp [listOccurrences, ih]

theorem mem_occurrences_iff {expression : Expression K} {id : VarId} :
    id ∈ expression.occurrences ↔ ∃ leaf, .var leaf ∈ expression.nodes ∧ leaf.id = id := by
  induction expression with
  | var leaf => simp [occurrences, eq_comm]
  | const value => simp [occurrences]
  | add left right ihLeft ihRight =>
      simp [occurrences, ihLeft, ihRight, or_and_right, exists_or]
  | neg body ih => simp [occurrences, ih]
  | mul left right ihLeft ihRight =>
      simp [occurrences, ihLeft, ihRight, or_and_right, exists_or]
  | sum terms ih =>
      rw [occurrences, mem_listOccurrences]
      simp only [nodes, List.mem_cons, reduceCtorEq, false_or, mem_listNodes]
      constructor
      · rintro ⟨term, term_mem, occurs⟩
        rcases (ih term term_mem).1 occurs with ⟨leaf, leaf_mem, same⟩
        exact ⟨leaf, ⟨term, term_mem, leaf_mem⟩, same⟩
      · rintro ⟨leaf, ⟨term, term_mem, leaf_mem⟩, same⟩
        exact ⟨term, term_mem, (ih term term_mem).2 ⟨leaf, leaf_mem, same⟩⟩
  | pos body ih => simp [occurrences, ih]
  | square body ih => simp [occurrences, ih]

theorem isGround_iff {expression : Expression K} :
    expression.IsGround ↔ expression.occurrences = [] ∧ expression.IsAtomFree := by
  rw [List.eq_nil_iff_forall_not_mem]
  simp only [mem_occurrences_iff, not_exists, not_and]
  constructor
  · intro ground
    constructor
    · rintro _ leaf member -
      exact Bool.noConfusion (ground _ member)
    · intro node member
      have free := ground node member
      cases node <;> first | rfl | exact free
  · rintro ⟨noVariable, free⟩ node member
    have notAtom := free node member
    cases node with
    | var leaf => exact absurd rfl (noVariable leaf.id leaf member)
    | _ => exact notAtom

end Ground

section LiteralProducts

def HasLiteralProducts (expression : Expression K) : Prop :=
  ∀ left right, .mul left right ∈ expression.nodes →
    (∃ factor, left = .const factor) ∨ ∃ factor, right = .const factor

variable {left right body : Expression K} {terms : List (Expression K)}

@[simp]
theorem hasLiteralProducts_var (leaf : Variable) :
    (var leaf : Expression K).HasLiteralProducts := by
  simp [HasLiteralProducts]

@[simp]
theorem hasLiteralProducts_const (value : K) : (const value).HasLiteralProducts := by
  simp [HasLiteralProducts]

@[simp]
theorem hasLiteralProducts_add :
    (add left right).HasLiteralProducts ↔
      left.HasLiteralProducts ∧ right.HasLiteralProducts := by
  simp [HasLiteralProducts, or_imp, forall_and]

@[simp]
theorem hasLiteralProducts_neg : (neg body).HasLiteralProducts ↔ body.HasLiteralProducts := by
  simp [HasLiteralProducts]

@[simp]
theorem hasLiteralProducts_mul :
    (mul left right).HasLiteralProducts ↔
      ((∃ factor, left = .const factor) ∨ ∃ factor, right = .const factor) ∧
        left.HasLiteralProducts ∧ right.HasLiteralProducts := by
  simp [HasLiteralProducts, or_imp, forall_and]

@[simp]
theorem hasLiteralProducts_sum :
    (sum terms).HasLiteralProducts ↔ ∀ term ∈ terms, term.HasLiteralProducts := by
  simp only [HasLiteralProducts, nodes, List.mem_cons, reduceCtorEq, false_or, mem_listNodes]
  constructor
  · intro literal term term_mem left right member
    exact literal left right ⟨term, term_mem, member⟩
  · rintro literal left right ⟨term, term_mem, member⟩
    exact literal term term_mem left right member

@[simp]
theorem hasLiteralProducts_pos : (pos body).HasLiteralProducts ↔ body.HasLiteralProducts := by
  simp [HasLiteralProducts]

@[simp]
theorem hasLiteralProducts_square :
    (square body).HasLiteralProducts ↔ body.HasLiteralProducts := by
  simp [HasLiteralProducts]

theorem HasLiteralProducts.of_mem_nodes {expression part : Expression K}
    (literal : expression.HasLiteralProducts) (part_mem : part ∈ expression.nodes) :
    part.HasLiteralProducts :=
  fun left right product_mem => literal left right (nodes_trans part_mem product_mem)

end LiteralProducts

section Flags

variable [Scalar K]

/-- The variables of an expression that are flagged as nonnegative are so at the point. -/
def FlagsHoldAt (expression : Expression K) (point : VarId → K) : Prop :=
  ∀ leaf, .var leaf ∈ expression.nodes → leaf.nonneg = true → 0 ≤ point leaf.id

variable {point : VarId → K} {left right body term : Expression K} {terms : List (Expression K)}

@[simp]
theorem flagsHoldAt_add :
    (add left right).FlagsHoldAt point ↔ left.FlagsHoldAt point ∧ right.FlagsHoldAt point := by
  simp [FlagsHoldAt, or_imp, forall_and]

@[simp]
theorem flagsHoldAt_neg : (neg body).FlagsHoldAt point ↔ body.FlagsHoldAt point := by
  simp [FlagsHoldAt]

@[simp]
theorem flagsHoldAt_mul :
    (mul left right).FlagsHoldAt point ↔ left.FlagsHoldAt point ∧ right.FlagsHoldAt point := by
  simp [FlagsHoldAt, or_imp, forall_and]

@[simp]
theorem flagsHoldAt_sum :
    (sum terms).FlagsHoldAt point ↔ ∀ term ∈ terms, term.FlagsHoldAt point := by
  simp only [FlagsHoldAt, nodes, List.mem_cons, reduceCtorEq, false_or, mem_listNodes]
  constructor
  · intro flags term term_mem leaf leaf_mem
    exact flags leaf ⟨term, term_mem, leaf_mem⟩
  · rintro flags leaf ⟨term, term_mem, leaf_mem⟩
    exact flags term term_mem leaf leaf_mem

@[simp]
theorem flagsHoldAt_pos : (pos body).FlagsHoldAt point ↔ body.FlagsHoldAt point := by
  simp [FlagsHoldAt]

@[simp]
theorem flagsHoldAt_square : (square body).FlagsHoldAt point ↔ body.FlagsHoldAt point := by
  simp [FlagsHoldAt]

theorem flagsHoldAt_sum_snoc :
    (sum (terms ++ [term])).FlagsHoldAt point ↔
      (sum terms).FlagsHoldAt point ∧ term.FlagsHoldAt point := by
  simp [or_imp, forall_and]

end Flags

section Snoc

variable [Scalar K]

theorem sumSign_append (accumulated : Sign) (terms rest : List (Expression K)) :
    sumSign accumulated (terms ++ rest) = sumSign (sumSign accumulated terms) rest := by
  induction terms generalizing accumulated with
  | nil => simp [sumSign]
  | cons term terms ih => simp [sumSign, ih]

@[simp]
theorem sign_sum_snoc (terms : List (Expression K)) (term : Expression K) :
    (sum (terms ++ [term])).sign = (sum terms).sign.add term.sign := by
  simp [sign, sumSign_append, sumSign]

theorem sumCurvature_append (accumulated : Curvature) (terms rest : List (Expression K)) :
    sumCurvature accumulated (terms ++ rest) =
      sumCurvature (sumCurvature accumulated terms) rest := by
  induction terms generalizing accumulated with
  | nil => simp [sumCurvature]
  | cons term terms ih => simp [sumCurvature, ih]

@[simp]
theorem curvature_sum_snoc (terms : List (Expression K)) (term : Expression K) :
    (sum (terms ++ [term])).curvature = (sum terms).curvature.add term.curvature := by
  simp [curvature, sumCurvature_append, sumCurvature]

end Snoc

end Expression

end HingeLoss
