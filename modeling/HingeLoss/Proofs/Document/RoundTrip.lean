import HingeLoss.Document.Reading
import HingeLoss.Proofs.Document.Meaning
import HingeLoss.Proofs.Json.Doubles
import HingeLoss.Proofs.Json.Yields

/-!
# Documents that are written and read again

The writer keeps to one of the many forms that the reader accepts: keys in their order, names as
strings, weights only where there are any. Every number of an accepted document is finite, so that
what is written for the document is read as the same document.
-/

namespace HingeLoss.Json.Reader

/-- However a string is written, it is read as the name that it stands for. -/
theorem reads_literal {depth : Nat} (deep : 0 < depth) (literal : StringLiteral) :
    Reads (readName depth) literal.text literal.content := by
  refine ⟨⟨'"', literal.body, literal.opens, rfl, by decide⟩, ?_⟩
  intro rest _
  have run := run_string_literal literal rest
  have visible : isSpace (some '"') = false := rfl
  cases depth with
  | zero => omega
  | succ depth =>
      rw [sourceOf, literal.opens, List.map_cons, List.cons_append] at *
      simp [readName, untyped, run_peekToken visible, run]

end HingeLoss.Json.Reader

namespace HingeLoss

open Json Json.Reader

theorem forall₂_reads_quoted {depth : Nat} (deep : 0 < depth) (names : List String) :
    List.Forall₂ (Reads (readName depth)) (names.map quoted) names := by
  rw [List.forall₂_map_left_iff]
  exact List.forall₂_same.2 fun name _ => reads_literal deep (.ofQuoted name)

/-- The entry of a weight that is written only where there is one. -/
def weightEntries : Option Float → List (String × String)
  | some weight => [("weight", writtenFloat weight)]
  | none => []

/-- The text of a term whose names are written in the given way. -/
def Term.textWith (names : List String) (term : Term Float) : String :=
  writtenRecord
    ([("constant", writtenFloat term.constant),
      ("variables", writtenList names),
      ("coefficients", writtenList (term.coefficients.map writtenFloat))] ++
      weightEntries term.weight ++ [("squared", writtenBool term.squared)])

theorem Term.toText_eq (term : Term Float) : term.toText = term.textWith (term.names.map quoted) :=
  rfl

theorem Term.reads_textWith {depth : Nat} (deep : 2 < depth) {term : Term Float}
    {names : List String} (each : List.Forall₂ (Reads (readName (depth - 2))) names term.names)
    (constant : Reads float (writtenFloat term.constant) term.constant)
    (coefficients : ∀ value ∈ term.coefficients, Reads float (writtenFloat value) value)
    (weight : ∀ value ∈ term.weight, Reads optionalFloat (writtenFloat value) (some value)) :
    Reads (Term.read depth) (term.textWith names) term := by
  have namesRead : Reads (list (depth - 1) (readName (depth - 1 - 1))) (writtenList names)
      term.names := Reads.list each (by omega)
  have values : Reads (list (depth - 1) float)
      (writtenList (term.coefficients.map writtenFloat)) term.coefficients := by
    apply Reads.list _ (by omega)
    rw [List.forall₂_map_left_iff]
    exact List.forall₂_same.2 coefficients
  have required : Collects (TermFields.read (depth - 1)) .empty
      [("constant", writtenFloat term.constant), ("variables", writtenList names),
        ("coefficients", writtenList (term.coefficients.map writtenFloat))]
      ⟨some term.constant, some term.names, some term.coefficients, none, none⟩ :=
    .cons (constant.run_field "constant" _)
      (.cons (namesRead.run_field "variables" _)
        (.cons (values.run_field "coefficients" _) .nil))
  have optional : Collects (TermFields.read (depth - 1))
      ⟨some term.constant, some term.names, some term.coefficients, none, none⟩
      (weightEntries term.weight)
      ⟨some term.constant, some term.names, some term.coefficients, term.weight.map some,
        none⟩ := by
    cases present : term.weight with
    | none => exact .nil
    | some value => exact .cons ((weight value present).run_field "weight" _) .nil
  have last : Collects (TermFields.read (depth - 1))
      ⟨some term.constant, some term.names, some term.coefficients, term.weight.map some, none⟩
      [("squared", writtenBool term.squared)]
      ⟨some term.constant, some term.names, some term.coefficients, term.weight.map some,
        some term.squared⟩ :=
    .cons ((reads_boolean term.squared).run_field "squared" _) .nil
  refine Reads.record (by omega) ((required.append optional).append last) ?_
  rcases term with ⟨_, _, _, _ | _, _⟩ <;> rfl

/-- The text of a document whose names and terms are written in the given way. -/
def HingeProblem.textWith (names constraints summands : List String) : String :=
  writtenRecord
    [("variables", writtenList names), ("constraints", writtenList constraints),
      ("objectiveSummands", writtenList summands)]

theorem HingeProblem.reads_textWith {depth : Nat} (deep : 4 < depth) {problem : HingeProblem Float}
    {names constraints summands : List String}
    (eachName : List.Forall₂ (Reads (readName (depth - 2))) names problem.names)
    (eachConstraint : List.Forall₂ (Reads (Term.read (depth - 2))) constraints problem.constraints)
    (eachSummand : List.Forall₂ (Reads (Term.read (depth - 2))) summands problem.summands) :
    Reads (HingeProblem.read depth) (textWith names constraints summands) problem := by
  have elements {α : Type} {element : Reader α} {texts : List String} {values : List α}
      (each : List.Forall₂ (Reads element) texts values) :
      Reads (list (depth - 1) element) (writtenList texts) values := Reads.list each (by omega)
  have fields : Collects (ProblemFields.read (depth - 1)) .empty
      [("variables", writtenList names), ("constraints", writtenList constraints),
        ("objectiveSummands", writtenList summands)]
      ⟨some problem.names, some problem.constraints, some problem.summands⟩ :=
    .cons ((elements eachName).run_field "variables" _)
      (.cons ((elements eachConstraint).run_field "constraints" _)
        (.cons ((elements eachSummand).run_field "objectiveSummands" _) .nil))
  exact Reads.record (by omega) fields rfl

section Weights

/-- The weight, if there is one, is a finite number. -/
def Term.HasFiniteWeight (term : Term Float) : Prop :=
  ∀ weight ∈ term.weight, weight.isFinite = true

def TermFields.HasFiniteWeight (fields : TermFields) : Prop :=
  ∀ weight ∈ fields.weight.getD none, weight.isFinite = true

theorem TermFields.yields_read {fields : TermFields} (depth : Nat) (key : String)
    (finite : fields.HasFiniteWeight) : Yields (read depth key fields) HasFiniteWeight := by
  unfold read
  split
  case h_4 => exact yields_optionalFloat.field _ _ _ fun found isFinite => isFinite
  case h_6 => exact yields_unknownField finite
  all_goals exact (yields_any _).field _ _ _ fun _ _ => finite

theorem Term.yields_read (depth : Nat) : Yields (read depth) HasFiniteWeight := by
  apply yields_record
  case byKey =>
    unfold readKeyed
    have empty : TermFields.empty.HasFiniteWeight := nofun
    refine (yields_recordBody (fun key fields => TermFields.yields_read _ key) empty).bind ?_
    intro fields finite
    exact yields_bind fun _ => yields_bind fun _ => yields_bind fun _ => yields_pure finite
  case inOrder =>
    unfold readListed
    refine yields_bind fun _ => yields_bind fun _ => yields_bind fun _ => yields_bind fun _ =>
      yields_bind fun _ => yields_bind fun _ => ?_
    refine (yields_optionalFloat.nextElement false).bind fun weight finite =>
      yields_bind fun _ => yields_pure ?_
    intro value mem
    cases weight with
    | none => cases mem
    | some weight => exact finite weight rfl value mem

/-- The weights of the document's terms are finite, of the constraints as well, where nothing
uses them. -/
def HingeProblem.HasFiniteWeights (problem : HingeProblem Float) : Prop :=
  (∀ term ∈ problem.constraints, term.HasFiniteWeight) ∧
    ∀ term ∈ problem.summands, term.HasFiniteWeight

def ProblemFields.HasFiniteWeights (fields : ProblemFields) : Prop :=
  (∀ term ∈ fields.constraints.getD [], term.HasFiniteWeight) ∧
    ∀ term ∈ fields.summands.getD [], term.HasFiniteWeight

theorem ProblemFields.yields_read {fields : ProblemFields} (depth : Nat) (key : String)
    (finite : fields.HasFiniteWeights) : Yields (read depth key fields) HasFiniteWeights := by
  have terms := (Term.yields_read (depth - 1)).list depth
  unfold read
  split
  case h_1 => exact (yields_any _).field _ _ _ fun _ _ => finite
  case h_2 => exact terms.field _ _ _ fun found isFinite => ⟨isFinite, finite.2⟩
  case h_3 => exact terms.field _ _ _ fun found isFinite => ⟨finite.1, isFinite⟩
  case h_4 => exact yields_unknownField finite

theorem HingeProblem.yields_read (depth : Nat) : Yields (read depth) HasFiniteWeights := by
  apply yields_record
  case byKey =>
    unfold readKeyed
    have empty : ProblemFields.empty.HasFiniteWeights := ⟨nofun, nofun⟩
    refine (yields_recordBody (fun key fields => ProblemFields.yields_read _ key) empty).bind ?_
    intro fields finite
    exact yields_bind fun _ => yields_pure finite
  case inOrder =>
    unfold readListed
    have terms := ((Term.yields_read (depth - 1 - 1)).list (depth - 1)).nextElement false
    have each {found : Option (List (Term Float))}
        (finite : ∀ terms ∈ found, ∀ term ∈ terms, term.HasFiniteWeight) :
        ∀ term ∈ found.getD [], term.HasFiniteWeight := by
      cases found with
      | none => exact nofun
      | some terms => exact finite terms rfl
    refine yields_bind fun _ => yields_bind fun _ => terms.bind fun constraints first =>
      terms.bind fun summands second => yields_pure ⟨each first, each second⟩

end Weights

theorem HingeProblem.fromText_eq_ok_iff {text : String} {problem : HingeProblem Float} :
    fromText text = .ok problem ↔
      runWhole (read depthLimit) (sourceOf text) = .ok problem ∧ problem.validate = .ok () := by
  simp only [fromText, fromSource, bind_eq_ok_iff, mapError_eq_ok_iff, pure_eq_ok_iff]
  constructor
  · rintro ⟨found, ran, _, valid, rfl⟩
    exact ⟨ran, valid⟩
  · rintro ⟨ran, valid⟩
    exact ⟨problem, ran, (), valid, rfl⟩

theorem Term.reads_textWith_of_isFinite {depth : Nat} (deep : 2 < depth) {term : Term Float}
    {names : List String} (each : List.Forall₂ (Reads (readName (depth - 2))) names term.names)
    (finite : term.isFinite = true) (weight : term.HasFiniteWeight) :
    Reads (Term.read depth) (term.textWith names) term := by
  rw [isFinite, Bool.and_eq_true, List.all_eq_true] at finite
  exact reads_textWith deep each (reads_writtenFloat finite.1).1
    (fun value mem => (reads_writtenFloat (finite.2 value mem)).1)
    (fun value mem => (reads_writtenFloat (weight value mem)).2)

/-- A document that was read is read again from what is written for it. -/
theorem HingeProblem.reads_toText_of_validate {problem : HingeProblem Float}
    (valid : problem.validate = .ok ()) (weights : problem.HasFiniteWeights) :
    Reads (read depthLimit) problem.toText problem := by
  simp only [validate, check_bind_eq_ok_iff, validateConstraints_eq_ok_iff,
    validateSummands_eq_ok_iff, Term.validate_eq_ok_iff] at valid
  have terms {terms : List (Term Float)} (finite : ∀ term ∈ terms, term.isFinite = true)
      (weights : ∀ term ∈ terms, term.HasFiniteWeight) :
      List.Forall₂ (Reads (Term.read (depthLimit - 2))) (terms.map Term.toText) terms := by
    rw [List.forall₂_map_left_iff]
    refine List.forall₂_same.2 fun term mem => ?_
    rw [Term.toText_eq]
    exact Term.reads_textWith_of_isFinite (by decide) (forall₂_reads_quoted (by decide) _)
      (finite term mem) (weights term mem)
  exact reads_textWith (by decide) (forall₂_reads_quoted (by decide) _)
    (terms (fun term mem => (valid.1 term mem).2) weights.1)
    (terms (fun term mem => (valid.2 term mem).1.2) weights.2)

/-- Writing a document that was read and reading it again gives it back, and the second writing
gives the same text. -/
theorem HingeProblem.fromText_toText {text : String} {problem : HingeProblem Float}
    (accepted : fromText text = .ok problem) :
    fromText problem.toText = .ok problem ∧
      (fromText problem.toText).map HingeProblem.toText = .ok problem.toText := by
  rcases fromText_eq_ok_iff.1 accepted with ⟨ran, valid⟩
  have weights := (yields_read depthLimit).of_runWhole ran
  have again := fromText_eq_ok_iff.2 ⟨(reads_toText_of_validate valid weights).runWhole_eq, valid⟩
  refine ⟨again, ?_⟩
  rw [again]
  rfl

theorem HingeProblem.fromText_toText_listed :
    ∃ problem : HingeProblem Float,
      fromText "[[-7,\"x\"],[[-0.0,[-7],[1e300],null]]]" = .ok problem ∧
        problem.toText = "\x7b\"variables\":[\"-7\",\"x\"]," ++
          "\"constraints\":[\x7b\"constant\":-0.0,\"variables\":[\"-7\"]," ++
          "\"coefficients\":[1e+300],\"squared\":false\x7d],\"objectiveSummands\":[]\x7d" ∧
        fromText problem.toText = .ok problem ∧
        (fromText problem.toText).map HingeProblem.toText = .ok problem.toText := by
  have accepted : fromText "[[-7,\"x\"],[[-0.0,[-7],[1e300],null]]]" =
      .ok ⟨["-7", "x"], [⟨-0.0, ["-7"], [1e300], none, false⟩], []⟩ :=
    toOption_eq_some_iff.1 (by decide +kernel)
  exact ⟨_, accepted, by decide +kernel, fromText_toText accepted⟩

end HingeLoss
