import HingeLoss.Proofs.Document.Preparation
import HingeLoss.Proofs.Problem.Relabelling

/-!
# Renamed documents

Names are only there to say which variable is meant. If a document is written with other names, and
different names stay different, its model is the old one under a relabelling: the names declare
variables at the same places, whatever number the supply is at. So the solver is handed the same
data.
-/

namespace HingeLoss

open DecisionVariables (leafAt numbered)

theorem eraseDups_map {rename : String → String} {names : List String}
    (apart : Set.InjOn rename {name | name ∈ names}) :
    (names.map rename).eraseDups = names.eraseDups.map rename := by
  induction names using List.reverseRecOn with
  | nil => rfl
  | append_singleton seen name ih =>
      have fromSeen := ih (apart.mono fun other member => List.mem_append_left _ member)
      rw [List.map_append, List.map_singleton]
      by_cases known : name ∈ seen
      · have stillKnown : rename name ∈ seen.map rename := List.mem_map_of_mem known
        rw [eraseDups_snoc_of_mem known, eraseDups_snoc_of_mem stillKnown, fromSeen]
      · have stillUnknown : rename name ∉ seen.map rename := by
          intro member
          rcases List.mem_map.1 member with ⟨other, other_mem, same⟩
          have equal := apart (List.mem_append_left _ other_mem) (by simp) same
          exact known (equal ▸ other_mem)
        rw [eraseDups_snoc_of_not_mem known, eraseDups_snoc_of_not_mem stillUnknown, fromSeen,
          List.map_append, List.map_singleton]

namespace Relabelling

/-- New names, and the way from what is drawn from the supply `before` to what is drawn from the
supply `other`. -/
def moved (rename : String → String) (before other : Supply) : Relabelling :=
  continued ⟨id, rename⟩ before other

theorem ids_moved (rename : String → String) (before other : Supply) (place : Nat) :
    (moved rename before other).ids ⟨before.next + place⟩ = ⟨other.next + place⟩ :=
  (carries_continued _ (fun _ => False) before other).ids place

theorem increasesOn_moved (rename : String → String) (before other : Supply) :
    (moved rename before other).IncreasesOn (before.next ≤ ·.index) := by
  have increases : (⟨id, rename⟩ : Relabelling).IncreasesOn fun _ => False := by
    intro left right left_in
    exact left_in.elim
  have increasesOn : (moved rename before other).IncreasesOn (withDrawn (fun _ => False) before) :=
    increases.continued (fun _ => False.elim) fun _ => False.elim
  intro left right left_drawn right_drawn
  exact increasesOn left right (.inr left_drawn) (.inr right_drawn)

end Relabelling

variable {K : Type}

def Term.renamed (rename : String → String) (term : Term K) : Term K :=
  { term with names := term.names.map rename }

def HingeProblem.renamed (rename : String → String) (problem : HingeProblem K) :
    HingeProblem K where
  names := problem.names.map rename
  constraints := problem.constraints.map (Term.renamed rename)
  summands := problem.summands.map (Term.renamed rename)

namespace DecisionVariables

variable {rename : String → String} {before other : Supply} {names : List String}

theorem relabel_leafAt (name : String) (place : Nat) :
    (leafAt before name place).relabel (.moved rename before other) =
      leafAt other (rename name) place := by
  rw [Variable.relabel, id_leafAt, Relabelling.ids_moved]
  rfl

/-- The declared names have the variables at the same places. -/
theorem entries_numbered_map (rename : String → String) (before other : Supply)
    (names : List String) :
    (numbered other (names.map rename) : DecisionVariables K).entries =
      (numbered before names).entries.map fun entry =>
        (rename entry.1, entry.2.relabel (.moved rename before other)) := by
  simp only [numbered, List.zipIdx_map, List.map_map]
  apply List.map_congr_left
  rintro ⟨name, place⟩ -
  simp only [Function.comp_apply, Prod.map_apply, Expression.relabel, relabel_leafAt, id_eq]

theorem find?_numbered_map (before other : Supply)
    (apart : Set.InjOn rename {name | name ∈ names}) {name : String} (member : name ∈ names) :
    (numbered other (names.map rename) : DecisionVariables K).find? (rename name) =
      ((numbered before names).find? name).map (.relabel (.moved rename before other)) := by
  rw [find?_numbered, find?_numbered, idxOf?_map fun other other_mem => apart other_mem member,
    Option.map_map]
  congr 1
  funext place
  simp only [Function.comp_apply, Expression.relabel, relabel_leafAt]

end DecisionVariables

namespace Term

variable {rename : String → String} {names : List String} {term : Term K}

theorem fits_renamed (fits : term.Fits names) :
    (term.renamed rename).Fits (names.map rename) := by
  constructor
  case lengths => exact (List.length_map _).trans fits.lengths
  case known =>
    intro name member
    rcases List.mem_map.1 member with ⟨other, other_mem, rfl⟩
    exact List.mem_map_of_mem (fits.known other other_mem)

variable [Scalar K] {before other : Supply}

theorem expressionOver_renamed (apart : Set.InjOn rename {name | name ∈ names})
    (known : ∀ name ∈ term.names, name ∈ names) :
    (term.renamed rename).expressionOver (numbered other (names.map rename)) =
      (term.expressionOver (numbered before names)).relabel (.moved rename before other) := by
  have entries : (term.renamed rename).entries = term.entries.map (Prod.map id rename) :=
    List.zip_map_right
  rw [expressionOver, expressionOver, Expression.relabel_weightedSum, entries, List.map_map,
    List.map_map]
  congr 1
  apply List.map_congr_left
  intro entry entry_mem
  have declared := known entry.2 (List.of_mem_zip entry_mem).2
  rcases DecisionVariables.exists_find?_numbered (K := K) before declared with ⟨place, -, found⟩
  simp only [Function.comp_apply, Prod.map_fst, Prod.map_snd, id_eq,
    DecisionVariables.find?_numbered_map before other apart declared, found, Option.map_some,
    Option.getD_some]

theorem penaltyOver_renamed (apart : Set.InjOn rename {name | name ∈ names})
    (known : ∀ name ∈ term.names, name ∈ names) :
    (term.renamed rename).penaltyOver (numbered other (names.map rename)) =
      (term.penaltyOver (numbered before names)).relabel (.moved rename before other) := by
  rw [penaltyOver, expressionOver_renamed apart known, ← Expression.relabel_hinge]
  rfl

end Term

namespace HingeProblem

variable [Scalar K] {problem : HingeProblem K} {rename : String → String} {before other : Supply}

theorem validate_renamed (rename : String → String) (valid : problem.validate = .ok ()) :
    (problem.renamed rename).validate = .ok () := by
  simp only [validate, check_bind_eq_ok_iff, validateConstraints_eq_ok_iff,
    validateSummands_eq_ok_iff, Term.validate_eq_ok_iff] at valid ⊢
  rcases valid with ⟨constraints, summands⟩
  simp only [renamed, List.forall_mem_map]
  constructor
  · intro term member
    exact (constraints term member).imp_left Term.fits_renamed
  · intro term member
    exact (summands term member).imp_left (And.imp_left Term.fits_renamed)

/-- The model of a renamed document is the relabelled model. -/
theorem built_renamed (buildable : problem.Buildable)
    (apart : Set.InjOn rename {name | name ∈ problem.names}) :
    (problem.renamed rename).built ((problem.renamed rename).decisions other) =
      (problem.built (problem.decisions before)).relabel (.moved rename before other) := by
  have sameNames : (problem.renamed rename).decisions other =
      (numbered other (problem.names.eraseDups.map rename) : DecisionVariables K) :=
    congrArg (numbered other) (eraseDups_map apart)
  have apartDeclared : Set.InjOn rename {name | name ∈ problem.names.eraseDups} :=
    apart.mono fun name member => List.mem_eraseDups.1 member
  have declared {term : Term K} (fits : term.Fits problem.names) :
      ∀ name ∈ term.names, name ∈ problem.names.eraseDups :=
    fun name member => List.mem_eraseDups.2 (fits.known name member)
  have objectives : (problem.renamed rename).summands.map
        (Term.penaltyOver (numbered other (problem.names.eraseDups.map rename))) =
      (problem.summands.map (Term.penaltyOver (problem.decisions before))).map
        (Expression.relabel (.moved rename before other)) := by
    rw [renamed, List.map_map, List.map_map]
    apply List.map_congr_left
    intro term member
    exact Term.penaltyOver_renamed apartDeclared (declared (buildable.summands term member))
  have boxes : (numbered other (problem.names.eraseDups.map rename)).entries.flatMap
        (fun entry => boxConstraints (entry.2 : Expression K)) =
      ((problem.decisions before).entries.flatMap fun entry => boxConstraints entry.2).map
        (Constraint.relabel (.moved rename before other)) := by
    rw [DecisionVariables.entries_numbered_map rename before, List.flatMap_map, List.map_flatMap]
    congr 1
    funext entry
    simp only [boxConstraints, List.map_cons, List.map_nil, Constraint.relabel_atLeast,
      Constraint.relabel_atMost, Expression.relabel]
  have terms : ((problem.renamed rename).constraints.map fun term => Constraint.atMost
        (term.expressionOver (numbered other (problem.names.eraseDups.map rename))) (.const 0)) =
      (problem.constraints.map fun term => Constraint.atMost
        (term.expressionOver (problem.decisions before)) (.const 0)).map
        (Constraint.relabel (.moved rename before other)) := by
    rw [renamed, List.map_map, List.map_map]
    apply List.map_congr_left
    intro term member
    rw [Function.comp_apply, Function.comp_apply, Constraint.relabel_atMost,
      Term.expressionOver_renamed apartDeclared (declared (buildable.constraints term member))]
    rfl
  rw [sameNames, built, objectives, boxes, terms, built, Problem.relabel, Expression.relabel_sumOf,
    List.map_append]

/-- The program that is handed over is the one of the built model. -/
theorem handsOver_iff (buildable : problem.Buildable) {decisions : DecisionVariables K}
    {program : ConicProgram K} :
    problem.HandsOver before decisions program ↔
      decisions = problem.decisions before ∧ ∃ standard after,
        (problem.built (problem.decisions before)).standardize.Returns (problem.declared before)
            standard after ∧
          standard.variableIds.isEmpty = false ∧ standard.assemble = .ok program := by
  constructor
  · rintro ⟨model, middle, standard, after, builds, returns, listed, assembled⟩
    rcases Builds.unique builds fun _ => yields_model buildable before with ⟨rfl, rfl, rfl⟩
    exact ⟨rfl, standard, after, returns, listed, assembled⟩
  · rintro ⟨rfl, standard, after, returns, listed, assembled⟩
    exact ⟨_, _, standard, after, fun _ => yields_model buildable before, returns, listed,
      assembled⟩

/-- The models of a document and of its renaming go through standardization alike. -/
theorem runsAlike_renamed (buildable : problem.Buildable)
    (apart : Set.InjOn rename {name | name ∈ problem.names}) (before other : Supply) :
    RunsAlike (.moved rename before other) (problem.built (problem.decisions before)).variableIds
      (problem.built (problem.decisions before)).standardize
      ((problem.renamed rename).built ((problem.renamed rename).decisions other)).standardize
      (problem.declared before) ((problem.renamed rename).declared other) := by
  have count : ((problem.renamed rename).declared other).next =
      other.next + problem.names.eraseDups.length := by
    have sameLength := congrArg List.length (eraseDups_map apart)
    rw [List.length_map] at sameLength
    exact congrArg (other.next + ·) sameLength
  rw [built_renamed buildable apart]
  apply Problem.runsAlike_standardize
  case increases =>
    have drawn : ∀ id ∈ (problem.built (problem.decisions before)).variableIds,
        before.next ≤ id.index := by
      rw [variableIds_built]
      exact fun id member => (Supply.mem_drawn.1 member).1
    intro left right left_mem right_mem
    exact Relabelling.increasesOn_moved rename before other left right (drawn left left_mem)
      (drawn right right_mem)
  case issued =>
    intro id member
    rcases mem_variableIds_built.1 member with ⟨place, name, atPlace, rfl⟩
    exact DecisionVariables.issued_leafAt atPlace
  case issuedToo =>
    intro id member
    rcases mem_variableIds_built.1 member with ⟨place, name, atPlace, rfl⟩
    have inside := (List.getElem?_eq_some_iff.1 atPlace).1
    rw [DecisionVariables.id_leafAt, Relabelling.ids_moved, Supply.Issued, count]
    exact Nat.add_lt_add_left inside other.next

/-- Either both documents hand over programs with the same data, or neither hands one over. -/
theorem handsOver_renamed (buildable : problem.Buildable)
    (renamedBuildable : (problem.renamed rename).Buildable)
    (apart : Set.InjOn rename {name | name ∈ problem.names}) (before other : Supply) :
    (∃ decisions program otherDecisions otherProgram,
        problem.HandsOver before decisions program ∧
          (problem.renamed rename).HandsOver other otherDecisions otherProgram ∧
            program.SameData otherProgram) ∨
      (∀ decisions program, ¬problem.HandsOver before decisions program) ∧
        ∀ decisions program, ¬(problem.renamed rename).HandsOver other decisions program := by
  simp only [handsOver_iff buildable, handsOver_iff renamedBuildable]
  cases runsAlike_renamed buildable apart before other with
  | failures fails alsoFails =>
      right
      constructor
      · rintro decisions program ⟨-, standard, after, returns, -⟩
        exact fails.not_returns standard returns
      · rintro decisions program ⟨-, standard, after, returns, -⟩
        exact alsoFails.not_returns standard returns
  | @programs standard relabelled after otherAfter program otherProgram returns alsoReturns
      assembled alsoAssembled sameCount data _ _ =>
      have sameEmpty : relabelled.variableIds.isEmpty = standard.variableIds.isEmpty := by
        rw [Bool.eq_iff_iff, List.isEmpty_iff, List.isEmpty_iff, ← List.length_eq_zero_iff,
          sameCount, List.length_eq_zero_iff]
      cases listed : standard.variableIds.isEmpty with
      | false =>
          rw [listed] at sameEmpty
          exact .inl ⟨_, program, _, otherProgram,
            ⟨rfl, standard, after, returns, listed, assembled⟩,
            ⟨rfl, relabelled, otherAfter, alsoReturns, sameEmpty, alsoAssembled⟩, data⟩
      | true =>
          rw [listed] at sameEmpty
          right
          constructor
          · rintro decisions program ⟨-, again, _, returnsAgain, listedAgain, -⟩
            rw [(returns.unique returnsAgain).1, listedAgain] at listed
            exact Bool.noConfusion listed
          · rintro decisions program ⟨-, again, _, returnsAgain, listedAgain, -⟩
            rw [(alsoReturns.unique returnsAgain).1, listedAgain] at sameEmpty
            exact Bool.noConfusion sameEmpty

end HingeProblem

/-- The data that a solver is handed depend neither on the numbers nor on the names of variables.
For every problem, numbers that go up where the old ones did, and supplies that had issued all
numbers in use, the two runs fail for the same reason or make programs with the same data and
corresponding columns, whether or not the rules are checked first. For every valid document, other
names that are told apart lead to a valid document that hands over the same data. -/
theorem programs_independent_of_labels [Scalar K] :
    (∀ (problem : Problem K) (relabelling : Relabelling) (before other : Supply),
        relabelling.IncreasesOn (· ∈ problem.variableIds) →
        (∀ id ∈ problem.variableIds, before.Issued id) →
        (∀ id ∈ problem.variableIds, other.Issued (relabelling.ids id)) →
          RunsAlike relabelling problem.variableIds problem.canonicalForm
              (problem.relabel relabelling).canonicalForm before other ∧
            RunsAlike relabelling problem.variableIds problem.standardize
              (problem.relabel relabelling).standardize before other) ∧
      ∀ (problem : HingeProblem K) (rename : String → String) (before other : Supply),
        problem.validate = .ok () → Set.InjOn rename {name | name ∈ problem.names} →
          (problem.renamed rename).validate = .ok () ∧
            ((∃ decisions program otherDecisions otherProgram,
                problem.HandsOver before decisions program ∧
                  (problem.renamed rename).HandsOver other otherDecisions otherProgram ∧
                    program.SameData otherProgram) ∨
              (∀ decisions program, ¬problem.HandsOver before decisions program) ∧
                ∀ decisions program,
                  ¬(problem.renamed rename).HandsOver other decisions program) := by
  constructor
  · intro problem relabelling before other increases issued issuedToo
    exact ⟨Problem.runsAlike_canonicalForm increases issued issuedToo,
      Problem.runsAlike_standardize increases issued issuedToo⟩
  · intro problem rename before other valid apart
    have renamedValid := HingeProblem.validate_renamed rename valid
    exact ⟨renamedValid, HingeProblem.handsOver_renamed (HingeProblem.buildable_of_validate valid)
      (HingeProblem.buildable_of_validate renamedValid) apart before other⟩

/-- The number of a variable moves from 1 to 5 and the supply from 2 to 9; and two names of a
document are exchanged. -/
theorem programs_independent_of_labels_exchanged :
    let leaf : Variable := ⟨⟨1⟩, some "x", false⟩
    let problem : Problem ℚ := ⟨.pos (.var leaf), [.atMost (.square (.var leaf)) (.const 3)]⟩
    let relabelling : Relabelling := ⟨fun id => ⟨id.index + 4⟩, fun _ => "y"⟩
    let document : HingeProblem ℚ := ⟨["a", "b"], [], [⟨1, ["b"], [-1], some 2, true⟩]⟩
    let exchange (name : String) : String := if name = "a" then "b" else "a"
    RunsAlike relabelling problem.variableIds problem.standardize
        (problem.relabel relabelling).standardize ⟨2⟩ ⟨9⟩ ∧
      document.renamed exchange = ⟨["b", "a"], [], [⟨1, ["a"], [-1], some 2, true⟩]⟩ ∧
        ∃ decisions program otherDecisions otherProgram,
          document.HandsOver .full decisions program ∧
            (document.renamed exchange).HandsOver ⟨7⟩ otherDecisions otherProgram ∧
              program.SameData otherProgram := by
  intro leaf problem relabelling document exchange
  rcases programs_independent_of_labels (K := ℚ) with ⟨forProblems, forDocuments⟩
  have ids : problem.variableIds = [⟨1⟩] := rfl
  refine ⟨(forProblems problem relabelling ⟨2⟩ ⟨9⟩ ?_ ?_ ?_).2, rfl, ?_⟩
  · intro left right _ _ below
    exact Nat.add_lt_add_right below 4
  · simp [ids, Supply.Issued]
  · simp [ids, Supply.Issued, relabelling]
  · have apart : Set.InjOn exchange {name | name ∈ document.names} := by
      intro left left_mem right right_mem
      simp only [document, Set.mem_ofPred_eq, List.mem_cons, List.not_mem_nil,
        or_false] at left_mem right_mem
      rcases left_mem with rfl | rfl <;> rcases right_mem with rfl | rfl <;> decide
    rcases (forDocuments document exchange .full ⟨7⟩ rfl apart).2 with handsOver | ⟨never, -⟩
    · exact handsOver
    · have nonneg : ∀ term ∈ document.summands, 0 ≤ term.weightOrZero := by
        simp [document, Term.weightOrZero]
      rcases HingeProblem.nonempty_preparation (HingeProblem.buildable_of_validate rfl)
          (HingeProblem.isDcp_built nonneg) with ⟨preparation⟩
      exact absurd (preparation.handsOver (HingeProblem.buildable_of_validate rfl)
        (.inl (by simp [document]))) (never _ _)

end HingeLoss
