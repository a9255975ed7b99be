import HingeLoss.Proofs.Json.Written

/-!
# Reading numerals

A numeral consists of digits, an optional point with further digits and an optional exponent. Each
part is read as far as it goes, because what follows it cannot continue it, and together they are
read as the double nearest to the number.
-/

namespace HingeLoss.Json

open Decimal

/-- A numeral with its digits before and behind the point and its exponent. Without places there is
no point. -/
structure Numeral where
  whole : List Char
  places : List Char
  exponent : Option Int

namespace Numeral

def fractionText : List Char → List Char
  | [] => []
  | places => '.' :: places

def exponentText : Option Int → List Char
  | none => []
  | some exponent =>
      'e' :: (if exponent < 0 then '-' else '+') :: Nat.toDigits 10 exponent.natAbs

def text (numeral : Numeral) : List Char :=
  numeral.whole ++ fractionText numeral.places ++ exponentText numeral.exponent

def digits (numeral : Numeral) : Nat :=
  digitsValue (numeral.whole ++ numeral.places)

def scale (numeral : Numeral) : Int :=
  numeral.exponent.getD 0 - numeral.places.length

/-- There is a digit before the point, of several the first is not zero, and the numeral does not
look like that of a whole number. -/
structure WellFormed (numeral : Numeral) : Prop where
  nonempty : numeral.whole ≠ []
  whole : ∀ digit ∈ numeral.whole, digit.isDigit = true
  leading : numeral.whole.head? = some '0' → numeral.whole = ['0']
  places : ∀ digit ∈ numeral.places, digit.isDigit = true
  decimal : numeral.places ≠ [] ∨ numeral.exponent ≠ none

theorem text_eq_cons {numeral : Numeral} (wellFormed : numeral.WellFormed) :
    ∃ first others, numeral.text = first :: others ∧ first.isDigit = true := by
  rcases wellFormed with ⟨nonempty, whole, -, -, -⟩
  rw [text]
  cases whole_eq : numeral.whole with
  | nil => exact absurd whole_eq nonempty
  | cons first others =>
      rw [whole_eq] at whole
      exact ⟨first, _, rfl, whole first List.mem_cons_self⟩

end Numeral

/-- A minus sign, if the number is negative. -/
def signText (negative : Bool) : List Char := if negative then ['-'] else []

namespace Reader

/-- What cannot continue digits. -/
def Stops (rest : Source) : Prop := rest.head?.any isDigit = false

section Parts

variable {characters : List Char} {rest : Source}

theorem run_digits (digit : ∀ character ∈ characters, character.isDigit = true)
    (stops : Stops rest) : digits.run (characters.map some ++ rest) = .ok (characters, rest) := by
  have all : ∀ character ∈ characters.map some, isDigit character = true := by
    rw [List.forall_mem_map]
    exact digit
  have none_taken : rest.takeWhile isDigit = [] ∧ rest.dropWhile isDigit = rest := by
    cases rest with
    | nil => exact ⟨rfl, rfl⟩
    | cons next others =>
        have other : isDigit next = false := stops
        rw [List.takeWhile_cons, List.dropWhile_cons, other]
        exact ⟨rfl, rfl⟩
  change Except.ok (((characters.map some ++ rest).takeWhile isDigit).filterMap id,
    (characters.map some ++ rest).dropWhile isDigit) = _
  rw [List.takeWhile_append_of_pos all, List.dropWhile_append_of_pos all, none_taken.1,
    none_taken.2, List.append_nil, List.filterMap_map]
  simp

theorem run_wholeDigits (nonempty : characters ≠ [])
    (digit : ∀ character ∈ characters, character.isDigit = true)
    (leading : characters.head? = some '0' → characters = ['0']) (stops : Stops rest) :
    wholeDigits.run (characters.map some ++ rest) = .ok (characters, rest) := by
  cases characters with
  | nil => exact absurd rfl nonempty
  | cons first others =>
      by_cases zero : first = '0'
      · subst zero
        obtain rfl : others = [] := by simpa using leading rfl
        have other : rest.head?.any isDigit = false := stops
        simp [wholeDigits, other]
      · have run := run_digits digit stops
        have isFirst : isDigit (some first) = true := digit first List.mem_cons_self
        rw [List.map_cons, List.cons_append] at run ⊢
        simp [wholeDigits, zero, isFirst, run]

theorem run_fraction (digit : ∀ character ∈ characters, character.isDigit = true)
    (stops : Stops rest) (noPoint : rest.head? ≠ some (some '.')) :
    fraction.run ((Numeral.fractionText characters).map some ++ rest) =
      .ok (if characters = [] then none else some characters, rest) := by
  cases characters with
  | nil =>
      rw [Numeral.fractionText, List.map_nil, List.nil_append, fraction, StateT.run_bind,
        StateT.run_get, pure_bind]
      split
      case h_1 => simp_all
      case h_2 => rfl
  | cons first others =>
      have run := run_digits digit stops
      have text : (Numeral.fractionText (first :: others)).map some ++ rest =
          some '.' :: ((first :: others).map some ++ rest) := rfl
      rw [text, fraction]
      simp [-List.map_cons, -List.cons_append, run]

theorem run_exponent (value : Option Int) (stops : Stops rest)
    (noMark : rest.head? ≠ some (some 'e') ∧ rest.head? ≠ some (some 'E')) :
    exponent.run ((Numeral.exponentText value).map some ++ rest) = .ok (value, rest) := by
  cases value with
  | none =>
      rw [Numeral.exponentText, List.map_nil, List.nil_append]
      rcases rest with _ | ⟨_ | mark, others⟩
      · rfl
      · rfl
      · have other : ¬(mark = 'e' ∨ mark = 'E') := by simpa using noMark
        simp [exponent, other]
  | some value =>
      have digit : ∀ character ∈ Nat.toDigits 10 value.natAbs, character.isDigit = true :=
        fun character mem => Nat.isDigit_of_mem_toDigits (by omega) (by omega) mem
      have run := run_digits digit stops
      have same : Decimal.digitsValue (Nat.toDigits 10 value.natAbs) = value.natAbs :=
        Nat.ofDigitChars_ten_toDigits
      have text : (Numeral.exponentText (some value)).map some ++ rest = some 'e' ::
          some (if value < 0 then '-' else '+') ::
            ((Nat.toDigits 10 value.natAbs).map some ++ rest) := rfl
      rw [text, exponent]
      generalize magnitude_eq : value.natAbs = magnitude at run same
      by_cases negative : value < 0
      · have negated : -(magnitude : Int) = value := by omega
        simp [negative, exponentSign, run, same, negated]
      · have kept : (magnitude : Int) = value := by omega
        simp [negative, exponentSign, run, same, kept]

/-- What closes a value cannot go on with a numeral. -/
theorem ends_of_closes (closes : Closes rest) :
    Stops rest ∧ rest.head? ≠ some (some '.') ∧
      rest.head? ≠ some (some 'e') ∧ rest.head? ≠ some (some 'E') := by
  rcases rest with _ | ⟨next, others⟩
  · simp [Stops]
  · rcases closes next rfl with rfl | rfl | rfl <;> simp [Stops, isDigit]

end Parts

/-- A numeral with a point or an exponent is read as the double nearest to it. -/
theorem run_unsignedNumber {numeral : Numeral} (wellFormed : numeral.WellFormed) {negative : Bool}
    {number : Number} (parts : Number.ofParts negative numeral.digits numeral.scale = .ok number)
    {rest : Source} (closes : Closes rest) :
    (unsignedNumber negative).run (numeral.text.map some ++ rest) = .ok (number, rest) := by
  rcases ends_of_closes closes with ⟨stops_rest, restNoPoint, restNoMark⟩
  have stops_exponent : Stops ((Numeral.exponentText numeral.exponent).map some ++ rest) := by
    cases numeral.exponent with
    | none => exact stops_rest
    | some exponent => rfl
  have stops_fraction : Stops ((Numeral.fractionText numeral.places).map some ++
      ((Numeral.exponentText numeral.exponent).map some ++ rest)) := by
    cases numeral.places with
    | nil => exact stops_exponent
    | cons => rfl
  have noPoint : ((Numeral.exponentText numeral.exponent).map some ++ rest).head? ≠
      some (some '.') := by
    cases numeral.exponent with
    | none => exact restNoPoint
    | some exponent => simp [Numeral.exponentText]
  have whole := run_wholeDigits wellFormed.nonempty wellFormed.whole wellFormed.leading
    stops_fraction
  have fraction_run := run_fraction wellFormed.places stops_exponent noPoint
  have exponent_run := run_exponent numeral.exponent stops_rest restNoMark
  rw [Numeral.text, List.map_append, List.map_append, List.append_assoc, List.append_assoc,
    unsignedNumber, StateT.run_bind, whole, ok_bind, StateT.run_bind, fraction_run, ok_bind,
    StateT.run_bind, exponent_run, ok_bind]
  have decimal : ((if numeral.places = [] then none else some numeral.places).isNone &&
      numeral.exponent.isNone) = false := by
    have := wellFormed.decimal
    by_cases empty : numeral.places = [] <;> simp_all [Option.ne_none_iff_isSome]
  have places : (if numeral.places = [] then none else some numeral.places).getD [] =
      numeral.places := by
    split <;> simp_all
  simp only [decimal, places, Bool.false_eq_true, if_false]
  rw [Numeral.digits, Numeral.scale] at parts
  rw [parts]
  rfl

/-- A minus sign is read first, and the rest as a number without a sign. -/
theorem run_number_signed {text : List Char} {rest : Source} {negative : Bool}
    (starts : ∀ first ∈ text.head?, first ≠ '-') (nonempty : text ≠ []) :
    number.run ((signText negative ++ text).map some ++ rest) =
      (unsignedNumber negative).run (text.map some ++ rest) := by
  cases negative with
  | true => simp [number, signText]
  | false =>
      cases text with
      | nil => exact absurd rfl nonempty
      | cons first others =>
          have other : first ≠ '-' := starts first rfl
          simp [number, signText, other]

theorem run_number {numeral : Numeral} (wellFormed : numeral.WellFormed) {negative : Bool}
    {number : Number} (parts : Number.ofParts negative numeral.digits numeral.scale = .ok number)
    {rest : Source} (closes : Closes rest) :
    Reader.number.run ((signText negative ++ numeral.text).map some ++ rest) =
      .ok (number, rest) := by
  rcases Numeral.text_eq_cons wellFormed with ⟨first, others, text_eq, isFirst⟩
  have starts : ∀ character ∈ numeral.text.head?, character ≠ '-' := by
    rw [text_eq]
    rintro character ⟨⟩ rfl
    exact absurd isFirst (by decide)
  rw [run_number_signed starts (by simp [text_eq])]
  exact run_unsignedNumber wellFormed parts closes

section Start

variable {first : Char} (starts : first = '-' ∨ first.isDigit = true)

include starts

/-- A character that starts a number tells it from anything else. -/
theorem ne_of_starts {other : Char} (notStart : ¬(other = '-' ∨ other.isDigit = true)) :
    first ≠ other := by
  rintro rfl
  exact notStart starts

theorem visible_of_starts : isSpace (some first) = false := by
  have different {other : Char} := @ne_of_starts first starts other
  simp [isSpace, @different ' ' (by decide), @different '\n' (by decide),
    @different '\t' (by decide), @different '\r' (by decide)]

end Start

theorem reads_float {numeral : Numeral} (wellFormed : numeral.WellFormed) {negative : Bool}
    {value : Float}
    (parts : Number.ofParts negative numeral.digits numeral.scale = .ok (.float value))
    {text : String} (text_eq : text.toList = signText negative ++ numeral.text) :
    Reads float text value ∧ Reads optionalFloat text (some value) := by
  obtain ⟨first, others, begins, isStart⟩ : ∃ first others,
      text.toList = first :: others ∧ (first = '-' ∨ first.isDigit = true) := by
    rcases Numeral.text_eq_cons wellFormed with ⟨first, others, numeral_eq, isFirst⟩
    rw [text_eq, numeral_eq]
    cases negative with
    | true => exact ⟨'-', _, rfl, .inl rfl⟩
    | false => exact ⟨first, others, rfl, .inr isFirst⟩
  have notEnd : first ≠ ']' := ne_of_starts isStart (by decide)
  have notNull : first ≠ 'n' := ne_of_starts isStart (by decide)
  have visible := visible_of_starts isStart
  have starts : first = '-' ∨ isDigit (some first) = true := isStart
  have run (rest : Source) (closes : Closes rest) :
      float.run (sourceOf text ++ rest) = .ok (value, rest) := by
    have found := run_number wellFormed parts closes
    rw [← text_eq, begins, List.map_cons, List.cons_append] at found
    rw [sourceOf, begins, List.map_cons, List.cons_append]
    simp [float, run_peekToken visible, starts, found, Number.toFloat]
  refine ⟨⟨⟨first, others, begins, visible, notEnd⟩, run⟩,
    ⟨⟨first, others, begins, visible, notEnd⟩, fun rest closes => ?_⟩⟩
  have found := run rest closes
  rw [sourceOf, begins, List.map_cons, List.cons_append] at found ⊢
  simp [optionalFloat, run_peekToken visible, notNull, found]

end Reader

end HingeLoss.Json
