import HingeLoss.Proofs.Document.Model
import HingeLoss.Proofs.Document.RoundTrip
import HingeLoss.Proofs.Json.WholeNumbers

/-!
# Names that are written as numbers

A variable may be named by a whole number, and the number is the same name as the string of its
digits. Since a whole number has only one numeral, names that are written as numbers are the same
name only if they are the same number, and a document means the same in whichever way each of its
names is written.
-/

namespace HingeLoss

open Json Json.Reader

section WholeNumbers

variable {depth : Nat} {numeral : WholeNumeral} {rest : Source}

def nameOfNumber (found : Number) : Except Fault String :=
  match found.whole? with
  | some value => .ok (nameOfInt value)
  | none => .error (.noVariant "Raw")

theorem run_readName_whole (deep : 0 < depth) (closes : Closes rest) :
    (readName depth).run (sourceOf numeral.text ++ rest) =
      (numeral.number >>= nameOfNumber).map fun name => (name, rest) := by
  have run := run_number_whole numeral closes
  rcases numeral.begins with ⟨first, others, begins, starts⟩
  have visible := visible_of_starts starts
  have different {other : Char} := @ne_of_starts first starts other
  cases depth with
  | zero => omega
  | succ depth =>
    rw [sourceOf, begins, List.map_cons, List.cons_append] at run ⊢
    simp only [readName, untyped, run_peekToken visible, starts, @different 'n' (by decide),
      @different 't' (by decide), @different 'f' (by decide), run, StateT.run_bind, ok_bind,
      if_true, if_false]
    rcases numeral.number with _ | (_ | _ | _) <;> rfl

/-- A whole number that 64 bits can hold is the same name as its digits. -/
theorem reads_whole (deep : 0 < depth) (inRange : numeral.InRange) :
    Reads (readName depth) numeral.text numeral.text := by
  rcases numeral.begins with ⟨first, others, begins, starts⟩
  refine ⟨⟨first, others, begins, visible_of_starts starts, ne_of_starts starts (by decide)⟩, ?_⟩
  intro rest closes
  rcases WholeNumeral.exists_number_of_inRange inRange with ⟨found, number_eq, whole⟩
  rw [run_readName_whole deep closes, number_eq, ok_bind, nameOfNumber, whole, numeral.text_eq]
  rfl

theorem inRange_of_nameFromText {name : String} (read : nameFromText numeral.text = .ok name) :
    numeral.InRange := by
  have run := @run_readName_whole depthLimit numeral [] (by decide) closes_nil
  rw [List.append_nil] at run
  rw [nameFromText, runWhole, run] at read
  cases outcome : numeral.number >>= nameOfNumber with
  | error fault =>
      rw [outcome] at read
      cases read
  | ok found =>
      rcases bind_eq_ok_iff.1 outcome with ⟨number, number_eq, named⟩
      cases whole : number.whole? with
      | none =>
          rw [nameOfNumber, whole] at named
          cases named
      | some value => exact WholeNumeral.inRange_of_number number_eq whole

theorem nameFromText_whole_eq_ok_iff {name : String} :
    nameFromText numeral.text = .ok name ↔ numeral.InRange ∧ name = numeral.text := by
  constructor
  · intro read
    have inRange := inRange_of_nameFromText read
    have same := (reads_whole (by decide) inRange).runWhole_eq.symm.trans read
    exact ⟨inRange, (Except.ok.inj same).symm⟩
  · rintro ⟨inRange, rfl⟩
    exact (reads_whole (by decide) inRange).runWhole_eq

end WholeNumbers

/-- A name as a document writes it. -/
inductive NameToken where
  | whole (numeral : WholeNumeral)
  | string (literal : StringLiteral)

namespace NameToken

variable {token first second : NameToken}

def text : NameToken → String
  | whole numeral => numeral.text
  | string literal => literal.text

/-- The name that the token stands for. -/
def name : NameToken → String
  | whole numeral => numeral.text
  | string literal => literal.content

def IsReadable : NameToken → Prop
  | whole numeral => numeral.InRange
  | string _ => True

instance : Decidable token.IsReadable :=
  match token with
  | whole numeral => inferInstanceAs (Decidable numeral.InRange)
  | string _ => isTrue trivial

/-- Numbers are compared as numbers, strings as strings, and a number and a string by the numeral of
the number. -/
def SameVariable : NameToken → NameToken → Prop
  | whole first, whole second => first.value = second.value
  | whole numeral, string literal => literal.content = numeral.text
  | string literal, whole numeral => literal.content = numeral.text
  | string first, string second => first.content = second.content

theorem sameVariable_iff : first.SameVariable second ↔ first.name = second.name := by
  cases first with
  | whole first =>
      cases second with
      | whole second => exact WholeNumeral.text_inj.symm
      | string second => exact eq_comm
  | string first => cases second <;> exact Iff.rfl

theorem reads (readable : token.IsReadable) {depth : Nat} (deep : 0 < depth) :
    Reads (readName depth) token.text token.name := by
  cases token with
  | whole numeral => exact reads_whole deep readable
  | string literal => exact reads_literal deep literal

theorem nameFromText_text (readable : token.IsReadable) :
    nameFromText token.text = .ok token.name :=
  (reads readable (by decide)).runWhole_eq

theorem nameFromText_text_eq_iff (firstReadable : first.IsReadable)
    (secondReadable : second.IsReadable) :
    nameFromText first.text = nameFromText second.text ↔ first.SameVariable second := by
  rw [nameFromText_text firstReadable, nameFromText_text secondReadable, Except.ok.injEq,
    sameVariable_iff]

theorem forall₂_reads {tokens : List NameToken} (readable : ∀ token ∈ tokens, token.IsReadable)
    {depth : Nat} (deep : 0 < depth) :
    List.Forall₂ (Reads (readName depth)) (tokens.map text) (tokens.map name) := by
  rw [List.forall₂_map_left_iff, List.forall₂_map_right_iff]
  exact List.forall₂_same.2 fun token mem => reads (readable token mem) deep

end NameToken

/-- A term together with how its names are written. -/
structure SpelledTerm where
  constant : Float
  names : List NameToken
  coefficients : List Float
  weight : Option Float
  squared : Bool

namespace SpelledTerm

def term (spelled : SpelledTerm) : Term Float :=
  ⟨spelled.constant, spelled.names.map NameToken.name, spelled.coefficients, spelled.weight,
    spelled.squared⟩

def text (spelled : SpelledTerm) : String :=
  spelled.term.textWith (spelled.names.map NameToken.text)

/-- The names can be read and the numbers can be written. -/
structure IsReadable (spelled : SpelledTerm) : Prop where
  names : ∀ token ∈ spelled.names, token.IsReadable
  finite : spelled.term.isFinite = true
  weight : spelled.term.HasFiniteWeight

theorem forall₂_reads {terms : List SpelledTerm} (readable : ∀ term ∈ terms, term.IsReadable)
    {depth : Nat} (deep : 2 < depth) :
    List.Forall₂ (Reads (Term.read depth)) (terms.map text) (terms.map term) := by
  rw [List.forall₂_map_left_iff, List.forall₂_map_right_iff]
  refine List.forall₂_same.2 fun spelled mem => ?_
  rcases readable spelled mem with ⟨names, finite, weight⟩
  have each := NameToken.forall₂_reads names (show 0 < depth - 2 by omega)
  exact Term.reads_textWith_of_isFinite deep each finite weight

end SpelledTerm

/-- A document together with how its names are written. -/
structure SpelledDocument where
  names : List NameToken
  constraints : List SpelledTerm
  summands : List SpelledTerm

namespace SpelledDocument

variable {document : SpelledDocument}

def problem (document : SpelledDocument) : HingeProblem Float :=
  ⟨document.names.map NameToken.name, document.constraints.map SpelledTerm.term,
    document.summands.map SpelledTerm.term⟩

def text (document : SpelledDocument) : String :=
  HingeProblem.textWith (document.names.map NameToken.text)
    (document.constraints.map SpelledTerm.text) (document.summands.map SpelledTerm.text)

structure IsReadable (document : SpelledDocument) : Prop where
  names : ∀ token ∈ document.names, token.IsReadable
  constraints : ∀ term ∈ document.constraints, term.IsReadable
  summands : ∀ term ∈ document.summands, term.IsReadable

theorem fromText_text (readable : document.IsReadable) :
    HingeProblem.fromText document.text = do
      document.problem.validate
      return document.problem := by
  have reads : Reads (HingeProblem.read depthLimit) document.text document.problem :=
    HingeProblem.reads_textWith (by decide) (NameToken.forall₂_reads readable.names (by decide))
      (SpelledTerm.forall₂_reads readable.constraints (by decide))
      (SpelledTerm.forall₂_reads readable.summands (by decide))
  rw [HingeProblem.fromText, HingeProblem.fromSource, reads.runWhole_eq]
  rfl

/-- A term is accepted with its names if each of them is declared, in whatever way. -/
theorem checkNames_eq_ok_iff (document : SpelledDocument) (spelled : SpelledTerm) :
    spelled.term.checkNames document.problem.names = .ok () ↔
      ∀ used ∈ spelled.names, ∃ declared ∈ document.names, used.SameVariable declared := by
  rw [Term.checkNames_eq_ok_iff]
  change (∀ name ∈ spelled.names.map NameToken.name,
    name ∈ document.names.map NameToken.name) ↔ _
  rw [List.forall_mem_map]
  refine forall₂_congr fun used _ => ?_
  rw [List.mem_map]
  exact exists_congr fun declared =>
    and_congr_right fun _ => eq_comm.trans NameToken.sameVariable_iff.symm

end SpelledDocument

/-- Declared names have the same variable only if they are the same name. -/
theorem HingeProblem.exists_variables (problem : HingeProblem Float) (before : Supply)
    {first second : String} (firstMem : first ∈ problem.names)
    (secondMem : second ∈ problem.names) :
    ∃ x y : Variable, (problem.decisions before).find? first = some (.var x) ∧
      (problem.decisions before).find? second = some (.var y) ∧ (x.id = y.id ↔ first = second) := by
  rcases exists_find?_decisions before firstMem with ⟨place, atPlace, found⟩
  rcases exists_find?_decisions before secondMem with ⟨other, atOther, foundOther⟩
  refine ⟨_, _, found, foundOther, ?_⟩
  constructor
  · intro same
    have places : place = other := by simpa using same
    rw [places, atOther, Option.some.injEq] at atPlace
    exact atPlace.symm
  · rintro rfl
    rw [found, Option.some.injEq, Expression.var.injEq] at foundOther
    rw [foundOther]

/-- A whole number of sixty-four bits is a name, and the name is its numeral. Two ways of writing
names stand for the same variable if they are the same number or the same string, or if the string
is the numeral of the number, and so they do wherever a document uses them. -/
theorem whole_numbers_as_names :
    (∀ numeral : WholeNumeral,
      ((∃ name, nameFromText numeral.text = .ok name) ↔
        -2 ^ 63 ≤ numeral.value ∧ numeral.value ≤ 2 ^ 64 - 1) ∧
      ∀ name, nameFromText numeral.text = .ok name →
        name = numeral.text ∧ name = nameOfInt numeral.value) ∧
    (∀ literal : StringLiteral, nameFromText literal.text = .ok literal.content) ∧
    (∀ first second : NameToken, first.IsReadable → second.IsReadable →
      (nameFromText first.text = nameFromText second.text ↔ first.SameVariable second)) ∧
    ∀ document : SpelledDocument, document.IsReadable →
      (HingeProblem.fromText document.text = do
        document.problem.validate
        return document.problem) ∧
      (∀ term ∈ document.constraints ++ document.summands,
        (term.term.checkNames document.problem.names = .ok () ↔
          ∀ used ∈ term.names, ∃ declared ∈ document.names, used.SameVariable declared)) ∧
      ∀ before : Supply, ∃ (decisions : DecisionVariables Float) (after : Supply),
        Modelling.YieldsEverywhere (fun _ => document.problem.buildVariables) before
            (.ok decisions) after ∧
          ∀ first second : NameToken, first.name ∈ document.problem.names →
            second.name ∈ document.problem.names →
            ∃ x y : Variable, decisions.find? first.name = some (.var x) ∧
              decisions.find? second.name = some (.var y) ∧
                (x.id = y.id ↔ first.SameVariable second) := by
  refine ⟨?numbers, ?strings, fun _ _ => NameToken.nameFromText_text_eq_iff, ?documents⟩
  case numbers =>
    simp only [nameFromText_whole_eq_ok_iff, exists_and_left, exists_eq, and_true]
    intro numeral
    refine ⟨Iff.rfl, ?_⟩
    rintro name ⟨-, rfl⟩
    exact ⟨rfl, numeral.text_eq⟩
  case strings => exact fun literal => (reads_literal (by decide) literal).runWhole_eq
  case documents =>
    intro document readable
    refine ⟨SpelledDocument.fromText_text readable,
      fun spelled _ => document.checkNames_eq_ok_iff spelled, fun before => ?_⟩
    refine ⟨_, _, document.problem.yields_buildVariables before, ?_⟩
    intro first second firstMem secondMem
    rw [NameToken.sameVariable_iff]
    exact HingeProblem.exists_variables document.problem before firstMem secondMem

/-- The names `2` and `-7`, each once as a number and once as a string. -/
def mixedDocument : SpelledDocument :=
  let two : WholeNumeral := ⟨false, ['2'], by decide, by decide, by decide, by decide⟩
  let minusSeven : WholeNumeral := ⟨true, ['7'], by decide, by decide, by decide, by decide⟩
  let escapedTwo : StringLiteral :=
    ⟨"\"\\u0032\"", "2", "\\u0032\"".toList, by decide +kernel, by decide +kernel⟩
  ⟨[.string escapedTwo, .whole minusSeven],
    [⟨0.5, [.whole two, .string (.ofQuoted "-7")], [1, -1], none, false⟩], []⟩

theorem whole_numbers_as_names_mixed :
    mixedDocument.IsReadable ∧
      mixedDocument.text = "\x7b\"variables\":[\"\\u0032\",-7]," ++
        "\"constraints\":[\x7b\"constant\":0.5,\"variables\":[2,\"-7\"]," ++
        "\"coefficients\":[1.0,-1.0],\"squared\":false\x7d],\"objectiveSummands\":[]\x7d" ∧
      HingeProblem.fromText mixedDocument.text =
        .ok ⟨["2", "-7"], [⟨0.5, ["2", "-7"], [1, -1], none, false⟩], []⟩ := by
  have readable : mixedDocument.IsReadable := by
    constructor
    case names => decide
    case constraints => exact List.forall_mem_singleton.2 ⟨by decide, by decide, nofun⟩
    case summands => exact nofun
  have valid : mixedDocument.problem.validate = .ok () :=
    toOption_eq_some_iff.1 (by decide +kernel)
  have read := (whole_numbers_as_names.2.2.2 mixedDocument readable).1
  rw [valid, ok_bind] at read
  exact ⟨readable, by decide +kernel, read⟩

end HingeLoss
