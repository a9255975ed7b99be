import HingeLoss.Decimal.Reading
import HingeLoss.Proofs.Failure
import HingeLoss.Proofs.Text.Words

/-!
# Numerals that can be read

The texts that are read as a count or as a double, given by how they are made up. A numeral is
taken apart from the left, and each part ends where a character stands that cannot belong to it, so
every numeral is taken apart in one way only.
-/

namespace HingeLoss.Decimal

open Text

section Digits

variable {digits rest : List Char}

def AllDigits (digits : List Char) : Prop := ∀ digit ∈ digits, digit.isDigit = true

instance : Decidable (AllDigits digits) :=
  decidable_of_iff (digits.all Char.isDigit = true) List.all_eq_true

/-- What cannot go on with digits. -/
def EndsDigits (rest : List Char) : Prop := ∀ character ∈ rest.head?, character.isDigit = false

theorem toNat_of_isDigit {digit : Char} (isDigit : digit.isDigit = true) :
    48 ≤ digit.toNat ∧ digit.toNat ≤ 57 := by
  simpa [Char.isDigit, UInt32.le_iff_toNat_le] using isDigit

theorem span_digits (allDigits : AllDigits digits) (ends : EndsDigits rest) :
    (digits ++ rest).takeWhile Char.isDigit = digits ∧
      (digits ++ rest).dropWhile Char.isDigit = rest := by
  rw [List.takeWhile_append_of_pos allDigits, List.dropWhile_append_of_pos allDigits]
  cases rest with
  | nil => simp
  | cons character others =>
      have notDigit : character.isDigit = false := ends character rfl
      simp [notDigit]

theorem allDigits_takeWhile (text : List Char) : AllDigits (text.takeWhile Char.isDigit) :=
  fun _ mem => List.mem_takeWhile_imp mem

end Digits

section Signs

inductive SignMark where
  | absent
  | plus
  | minus

namespace SignMark

def text : SignMark → List Char
  | absent => []
  | plus => ['+']
  | minus => ['-']

def negative : SignMark → Bool
  | minus => true
  | _ => false

def signed (sign : SignMark) (magnitude : Int) : Int :=
  if sign.negative then -magnitude else magnitude

end SignMark

theorem exists_signMark (text : List Char) :
    ∃ sign : SignMark, text = sign.text ++ (splitSign text).2 ∧
      (splitSign text).1 = sign.negative := by
  rw [splitSign.eq_def]
  split
  · exact ⟨.minus, rfl, rfl⟩
  · exact ⟨.plus, rfl, rfl⟩
  · exact ⟨.absent, rfl, rfl⟩

theorem splitSign_append (sign : SignMark) {rest : List Char}
    (unsigned : ∀ character ∈ rest.head?, character ≠ '-' ∧ character ≠ '+') :
    splitSign (sign.text ++ rest) = (sign.negative, rest) := by
  cases sign with
  | plus => rfl
  | minus => rfl
  | absent =>
      rw [SignMark.text, List.nil_append, splitSign.eq_def]
      split <;> simp_all [SignMark.negative]

theorem not_sign_of_isDigit {character : Char} (isDigit : character.isDigit = true) :
    character ≠ '-' ∧ character ≠ '+' := by
  constructor <;> rintro rfl <;> exact absurd isDigit (by decide)

theorem AllDigits.unsigned {digits : List Char} (allDigits : AllDigits digits) :
    ∀ character ∈ digits.head?, character ≠ '-' ∧ character ≠ '+' :=
  fun character mem => not_sign_of_isDigit (allDigits character (List.mem_of_mem_head? mem))

end Signs

section Counts

variable {digits : List Char}

/-- The text is a whole number in decimal, which may have a plus sign. -/
def CountText (text : List Char) (value : Nat) : Prop :=
  ∃ digits, (text = digits ∨ text = '+' :: digits) ∧ digits ≠ [] ∧ AllDigits digits ∧
    digitsValue digits = value

def addDigit (value : Nat) (digit : Char) : Nat := 10 * value + (digit.toNat - '0'.toNat)

theorem le_foldl_addDigit (value : Nat) (digits : List Char) :
    value ≤ digits.foldl addDigit value := by
  induction digits generalizing value with
  | nil => exact Nat.le_refl value
  | cons digit rest ih =>
      have more := ih (addDigit value digit)
      rw [addDigit] at more
      rw [List.foldl_cons, addDigit]
      omega

/-- The limit is passed at the latest by the whole number, since no digit takes a number down. -/
theorem countDigits_eq_ok_iff {limit value result : Nat} (within : value ≤ limit) :
    countDigits limit value digits = .ok result ↔
      AllDigits digits ∧ digits.foldl addDigit value = result ∧ result ≤ limit := by
  induction digits generalizing value with
  | nil =>
      simp only [countDigits, Except.ok.injEq, List.foldl_nil, AllDigits]
      constructor
      · rintro rfl
        exact ⟨nofun, rfl, within⟩
      · exact fun ⟨_, same, _⟩ => same
  | cons digit rest ih =>
      rw [countDigits, List.foldl_cons, AllDigits, List.forall_mem_cons]
      cases isDigit : digit.isDigit with
      | false => simp
      | true =>
          change (if limit < addDigit value digit then _ else _) = _ ↔ _
          simp only [true_and]
          split
          case isTrue beyond =>
            have larger := le_foldl_addDigit (addDigit value digit) rest
            constructor
            · exact nofun
            · rintro ⟨-, rfl, most⟩
              omega
          case isFalse next => exact ih (Nat.le_of_not_lt next)

theorem countText_signed {value : Nat} :
    CountText ('+' :: digits) value ↔
      digits ≠ [] ∧ AllDigits digits ∧ digitsValue digits = value := by
  constructor
  · rintro ⟨found, rfl | same, nonempty, allDigits, counted⟩
    · exact absurd (allDigits '+' List.mem_cons_self) (by decide)
    · obtain rfl := (List.cons.inj same).2
      exact ⟨nonempty, allDigits, counted⟩
  · rintro ⟨nonempty, allDigits, counted⟩
    exact ⟨digits, .inr rfl, nonempty, allDigits, counted⟩

theorem countText_unsigned {value : Nat} (unsigned : ∀ rest, digits ≠ '+' :: rest) :
    CountText digits value ↔ digits ≠ [] ∧ AllDigits digits ∧ digitsValue digits = value := by
  constructor
  · rintro ⟨found, rfl | same, nonempty, allDigits, counted⟩
    · exact ⟨nonempty, allDigits, counted⟩
    · exact absurd same (unsigned found)
  · rintro ⟨nonempty, allDigits, counted⟩
    exact ⟨digits, .inl rfl, nonempty, allDigits, counted⟩

theorem readCount_eq_ok_iff {limit result : Nat} {text : String} :
    readCount limit text = .ok result ↔ CountText text.toList result ∧ result ≤ limit := by
  have counts (digits : List Char) : countDigits limit 0 digits = .ok result ↔
      AllDigits digits ∧ digitsValue digits = result ∧ result ≤ limit :=
    countDigits_eq_ok_iff (Nat.zero_le limit)
  rw [readCount.eq_def]
  generalize text.toList = characters
  split
  case h_1 => simp [countText_unsigned]
  case h_2 => simp [countText_signed]
  case h_3 digits nonempty =>
    have isNonempty : digits ≠ [] := fun empty => nonempty (by rw [empty])
    rw [counts, countText_signed]
    simp [isNonempty, and_assoc]
  case h_4 nonempty notPlus unsigned =>
    have isNonempty : characters ≠ [] := nonempty
    rw [counts, countText_unsigned unsigned]
    simp [isNonempty, and_assoc]

end Counts

section Floats

/-- The exponent of a numeral, with the letter that introduces it. -/
structure ExponentPart where
  letter : Char
  sign : SignMark
  digits : List Char

namespace ExponentPart

def text (part : ExponentPart) : List Char := part.letter :: (part.sign.text ++ part.digits)

def value (part : ExponentPart) : Int := part.sign.signed (digitsValue part.digits)

structure WellFormed (part : ExponentPart) : Prop where
  letter : part.letter = 'e' ∨ part.letter = 'E'
  nonempty : part.digits ≠ []
  allDigits : AllDigits part.digits

end ExponentPart

/-- A numeral without sign: digits, which may be split by a point or have one at their end, and an
exponent, which may be left out. -/
structure FloatNumeral where
  whole : List Char
  /-- What stands behind the point, if there is one. -/
  places : Option (List Char)
  exponent : Option ExponentPart

namespace FloatNumeral

def fractionText : Option (List Char) → List Char
  | none => []
  | some places => '.' :: places

def exponentText : Option ExponentPart → List Char
  | none => []
  | some part => part.text

def text (numeral : FloatNumeral) : List Char :=
  numeral.whole ++ (fractionText numeral.places ++ exponentText numeral.exponent)

def digits (numeral : FloatNumeral) : Nat :=
  digitsValue (numeral.whole ++ numeral.places.getD [])

/-- The power of ten by which the digits are scaled. -/
def scale (numeral : FloatNumeral) : Int :=
  -((numeral.places.getD []).length : Int) + (numeral.exponent.map ExponentPart.value).getD 0

structure WellFormed (numeral : FloatNumeral) : Prop where
  whole : AllDigits numeral.whole
  places : AllDigits (numeral.places.getD [])
  nonempty : ¬(numeral.whole = [] ∧ numeral.places.getD [] = [])
  exponent : ∀ part ∈ numeral.exponent, part.WellFormed

end FloatNumeral

theorem exponentPart?_eq_some_iff {text : List Char} {value : Int} :
    exponentPart? text = some value ↔
      ∃ (sign : SignMark) (digits : List Char), text = sign.text ++ digits ∧ digits ≠ [] ∧
        AllDigits digits ∧ sign.signed (digitsValue digits) = value := by
  constructor
  · intro read
    rcases exists_signMark text with ⟨sign, text_eq, negative_eq⟩
    rw [exponentPart?] at read
    generalize splitSign text = parts at text_eq negative_eq read
    rcases parts with ⟨negative, digits⟩
    subst negative_eq
    simp only [Option.ite_none_left_eq_some, Bool.or_eq_true, not_or, List.isEmpty_iff,
      Bool.not_eq_true', Bool.not_eq_false, List.all_eq_true] at read
    rcases read with ⟨⟨nonempty, allDigits⟩, value_eq⟩
    refine ⟨sign, digits, text_eq, nonempty, allDigits, ?_⟩
    rw [← Option.some.injEq, ← value_eq, SignMark.signed, apply_ite some]
  · rintro ⟨sign, digits, rfl, nonempty, allDigits, rfl⟩
    have all : digits.all Char.isDigit = true := List.all_eq_true.2 allDigits
    rw [exponentPart?, splitSign_append sign allDigits.unsigned, SignMark.signed, apply_ite some]
    simp [nonempty, all]

/-- The digits behind a point, and what follows the fraction. -/
def splitFraction : List Char → List Char × List Char
  | '.' :: tail => (tail.takeWhile Char.isDigit, tail.dropWhile Char.isDigit)
  | tail => ([], tail)

def scaled (digits : Nat) (scale : Int) : List Char → Option (Nat × Int)
  | [] => some (digits, scale)
  | letter :: tail =>
      if letter = 'e' ∨ letter = 'E' then
        (exponentPart? tail).map fun exponent => (digits, scale + exponent)
      else none

theorem magnitude?_eq (text : List Char) :
    magnitude? text =
      let whole := text.takeWhile Char.isDigit
      let parts := splitFraction (text.dropWhile Char.isDigit)
      if whole.isEmpty && parts.1.isEmpty then none
      else scaled (digitsValue (whole ++ parts.1)) (-(parts.1.length : Int)) parts.2 := by
  rfl

theorem exists_places (text : List Char) :
    ∃ places : Option (List Char), (splitFraction text).1 = places.getD [] ∧
      text = FloatNumeral.fractionText places ++ (splitFraction text).2 ∧
        AllDigits (places.getD []) := by
  rw [splitFraction.eq_def]
  split
  case h_1 tail =>
    refine ⟨some (tail.takeWhile Char.isDigit), rfl, ?_, allDigits_takeWhile tail⟩
    rw [FloatNumeral.fractionText, List.cons_append, List.takeWhile_append_dropWhile]
  case h_2 => exact ⟨none, rfl, rfl, nofun⟩

theorem splitFraction_append {places : Option (List Char)} {rest : List Char}
    (allDigits : AllDigits (places.getD [])) (ends : EndsDigits rest)
    (noPoint : rest.head? ≠ some '.') :
    splitFraction (FloatNumeral.fractionText places ++ rest) = (places.getD [], rest) := by
  cases places with
  | none =>
      rw [FloatNumeral.fractionText, List.nil_append, splitFraction.eq_def]
      split
      case h_1 => exact absurd rfl noPoint
      case h_2 => rfl
  | some places =>
      have spans : (places ++ rest).takeWhile Char.isDigit = places ∧
          (places ++ rest).dropWhile Char.isDigit = rest := span_digits allDigits ends
      rw [FloatNumeral.fractionText, List.cons_append, splitFraction, spans.1, spans.2]
      rfl

theorem scaled_eq_some_iff {digits found : Nat} {scale total : Int} {rest : List Char} :
    scaled digits scale rest = some (found, total) ↔
      ∃ exponent : Option ExponentPart, (∀ part ∈ exponent, part.WellFormed) ∧
        rest = FloatNumeral.exponentText exponent ∧ digits = found ∧
          scale + (exponent.map ExponentPart.value).getD 0 = total := by
  rw [scaled.eq_def]
  constructor
  · intro read
    split at read
    case h_1 =>
      rw [Option.some.injEq, Prod.mk.injEq] at read
      exact ⟨none, nofun, rfl, read.1, by simpa using read.2⟩
    case h_2 letter tail =>
      rw [Option.ite_none_right_eq_some, Option.map_eq_some_iff] at read
      rcases read with ⟨isLetter, exponent, exponent_eq, same⟩
      rcases exponentPart?_eq_some_iff.1 exponent_eq with
        ⟨sign, digits, rfl, nonempty, allDigits, rfl⟩
      rw [Prod.mk.injEq] at same
      refine ⟨some ⟨letter, sign, digits⟩, ?_, rfl, same.1, same.2⟩
      rintro part ⟨⟩
      exact ⟨isLetter, nonempty, allDigits⟩
  · rintro ⟨_ | part, wellFormed, rfl, rfl, rfl⟩
    · simp [FloatNumeral.exponentText]
    · rcases wellFormed part rfl with ⟨isLetter, nonempty, allDigits⟩
      have read : exponentPart? (part.sign.text ++ part.digits) = some part.value :=
        exponentPart?_eq_some_iff.2 ⟨part.sign, part.digits, rfl, nonempty, allDigits, rfl⟩
      simp [FloatNumeral.exponentText, ExponentPart.text, isLetter, read]

/-- What may follow the digits and the fraction of a numeral. -/
theorem exponentText_ends {exponent : Option ExponentPart}
    (wellFormed : ∀ part ∈ exponent, part.WellFormed) :
    EndsDigits (FloatNumeral.exponentText exponent) ∧
      (FloatNumeral.exponentText exponent).head? ≠ some '.' := by
  cases exponent with
  | none => exact ⟨nofun, nofun⟩
  | some part =>
      have isLetter := (wellFormed part rfl).letter
      rw [FloatNumeral.exponentText, ExponentPart.text, EndsDigits, List.head?_cons]
      rcases isLetter with isSmall | isCapital
      · simp [isSmall]
      · simp [isCapital]

theorem fraction_ends {places : Option (List Char)} {rest : List Char} (ends : EndsDigits rest) :
    EndsDigits (FloatNumeral.fractionText places ++ rest) := by
  cases places with
  | none => exact ends
  | some places =>
      rintro character ⟨⟩
      decide

theorem magnitude?_eq_some_iff {text : List Char} {digits : Nat} {scale : Int} :
    magnitude? text = some (digits, scale) ↔
      ∃ numeral : FloatNumeral, numeral.WellFormed ∧ text = numeral.text ∧
        numeral.digits = digits ∧ numeral.scale = scale := by
  rw [magnitude?_eq]
  constructor
  · intro read
    have whole := allDigits_takeWhile text
    have split := List.takeWhile_append_dropWhile (p := Char.isDigit) (l := text)
    generalize text.takeWhile Char.isDigit = digitsBefore at read whole split
    generalize text.dropWhile Char.isDigit = after at read split
    rcases exists_places after with ⟨places, places_eq, after_eq, placesDigits⟩
    rw [Option.ite_none_left_eq_some, places_eq, scaled_eq_some_iff] at read
    rcases read with ⟨nonempty, exponent, wellFormed, rest_eq, rfl, rfl⟩
    rw [rest_eq] at after_eq
    refine ⟨⟨digitsBefore, places, exponent⟩, ⟨whole, placesDigits, ?_, wellFormed⟩, ?_, rfl, rfl⟩
    · simpa using nonempty
    · rw [← split, after_eq]
      rfl
  · rintro ⟨⟨whole, places, exponent⟩, ⟨wholeDigits, placesDigits, nonempty, wellFormed⟩, rfl,
      rfl, rfl⟩
    -- Each part ends where the next one starts, from the exponent backwards.
    have ends := exponentText_ends wellFormed
    have afterWhole : EndsDigits (FloatNumeral.fractionText places ++
        FloatNumeral.exponentText exponent) := fraction_ends ends.1
    have spans := span_digits wholeDigits afterWhole
    rw [FloatNumeral.text, spans.1, spans.2, splitFraction_append placesDigits ends.1 ends.2]
    have someDigit : ¬(whole.isEmpty && (places.getD []).isEmpty) = true := by
      simpa using nonempty
    exact (if_neg someDigit).trans
      (scaled_eq_some_iff.2 ⟨exponent, wellFormed, rfl, rfl, rfl⟩)

/-- The text without its sign is a numeral, or one of the words for infinity and for no number in
any case, and the double is what it stands for with the sign. -/
inductive UnsignedFloat (negative : Bool) : List Char → Float → Prop
  | infinity {word : List Char}
      (named : InAnyCase word "inf".toList ∨ InAnyCase word "infinity".toList) :
      UnsignedFloat negative word (if negative then -(1 / 0) else 1 / 0)
  | notANumber {word : List Char} (named : InAnyCase word "nan".toList) :
      UnsignedFloat negative word (0 / 0)
  | numeral {numeral : FloatNumeral} (wellFormed : numeral.WellFormed) :
      UnsignedFloat negative numeral.text (nearestDouble negative numeral.digits numeral.scale)

def FloatText (text : List Char) (value : Float) : Prop :=
  ∃ (sign : SignMark) (unsigned : List Char),
    text = sign.text ++ unsigned ∧ UnsignedFloat sign.negative unsigned value

theorem FloatNumeral.WellFormed.starts {numeral : FloatNumeral} (wellFormed : numeral.WellFormed) :
    ∃ first rest, numeral.text = first :: rest ∧ (first.isDigit = true ∨ first = '.') := by
  rcases numeral with ⟨_ | ⟨first, whole⟩, _ | places, exponent⟩
  · exact absurd ⟨rfl, rfl⟩ wellFormed.nonempty
  · exact ⟨'.', places ++ exponentText exponent, rfl, .inr rfl⟩
  · exact ⟨first, _, rfl, .inl (wellFormed.whole first List.mem_cons_self)⟩
  · exact ⟨first, _, rfl, .inl (wellFormed.whole first List.mem_cons_self)⟩

/-- A numeral is no word, since it starts with a digit or a point. -/
theorem FloatNumeral.WellFormed.not_inAnyCase {numeral : FloatNumeral} {letter : Char}
    {word : List Char} (wellFormed : numeral.WellFormed) (small : letter.isLower = true) :
    ¬InAnyCase numeral.text (letter :: word) := by
  intro named
  rcases wellFormed.starts with ⟨first, rest, text_eq, starts⟩
  rw [text_eq, InAnyCase, List.forall₂_cons, ← Char.toNat_inj, ← Char.toNat_inj,
    toNat_toUpper] at named
  have letterRange : 97 ≤ letter.toNat ∧ letter.toNat ≤ 122 := by
    delta Char.isLower at small
    simpa [UInt32.le_iff_toNat_le] using small
  have firstRange : first.toNat ≤ 57 := by
    rcases starts with isDigit | rfl
    · exact (toNat_of_isDigit isDigit).2
    · decide
  rcases named with ⟨same | capital, -⟩
  · omega
  · split at capital <;> omega

/-- The part of `readFloat` that is left to do behind the sign. -/
def readUnsigned (negative : Bool) (unsigned : List Char) : Except NumeralFault Float :=
  let word := unsigned.map Char.toLower
  if word = "inf".toList ∨ word = "infinity".toList then
    .ok (if negative then -(1 / 0) else 1 / 0)
  else if word = "nan".toList then .ok (0 / 0)
  else
    match magnitude? unsigned with
    | some (digits, exponent) => .ok (nearestDouble negative digits exponent)
    | none => .error .invalidFloat

theorem readUnsigned_eq_ok_iff {negative : Bool} {unsigned : List Char} {value : Float} :
    readUnsigned negative unsigned = .ok value ↔ UnsignedFloat negative unsigned value := by
  have infinite : unsigned.map Char.toLower = "inf".toList ∨
      unsigned.map Char.toLower = "infinity".toList ↔
        InAnyCase unsigned "inf".toList ∨ InAnyCase unsigned "infinity".toList :=
    or_congr (map_toLower_eq_iff (by decide)) (map_toLower_eq_iff (by decide))
  have noNumber : unsigned.map Char.toLower = "nan".toList ↔ InAnyCase unsigned "nan".toList :=
    map_toLower_eq_iff (by decide)
  rw [readUnsigned]
  constructor
  · intro read
    split at read
    case isTrue word =>
      rw [← Except.ok.inj read]
      exact .infinity (infinite.1 word)
    case isFalse =>
      split at read
      case isTrue word =>
        rw [← Except.ok.inj read]
        exact .notANumber (noNumber.1 word)
      case isFalse =>
        split at read
        case h_1 digits scale magnitude_eq =>
          rcases magnitude?_eq_some_iff.1 magnitude_eq with ⟨numeral, wellFormed, rfl, rfl, rfl⟩
          rw [← Except.ok.inj read]
          exact .numeral wellFormed
        case h_2 => exact nomatch read
  · rintro (named | named | wellFormed)
    case infinity => exact if_pos (infinite.2 named)
    case notANumber =>
      -- The words are tried in turn, and no text is two of them.
      have word := noNumber.2 named
      have finite : ¬(unsigned.map Char.toLower = "inf".toList ∨
          unsigned.map Char.toLower = "infinity".toList) := by
        rw [word]
        decide
      exact (if_neg finite).trans (if_pos word)
    case numeral numeral =>
      have noWord {letter : Char} {word : List Char} (small : letter.isLower = true) :
          ¬InAnyCase numeral.text (letter :: word) := wellFormed.not_inAnyCase small
      have magnitude_eq : magnitude? numeral.text = some (numeral.digits, numeral.scale) :=
        magnitude?_eq_some_iff.2 ⟨numeral, wellFormed, rfl, rfl, rfl⟩
      rw [if_neg (mt infinite.1 (not_or.2 ⟨noWord (by decide), noWord (by decide)⟩)),
        if_neg (mt noNumber.1 (noWord (by decide))), magnitude_eq]

/-- What is read behind the sign does not start with a sign itself. -/
theorem UnsignedFloat.starts {negative : Bool} {unsigned : List Char} {value : Float}
    (read : UnsignedFloat negative unsigned value) :
    ∃ first rest, unsigned = first :: rest ∧ first ≠ '-' ∧ first ≠ '+' := by
  have starts {letter : Char} {word : List Char} (named : InAnyCase unsigned (letter :: word))
      (noSign : letter ≠ '-' ∧ letter ≠ '+' ∧ letter.toUpper ≠ '-' ∧ letter.toUpper ≠ '+') :
      ∃ first rest, unsigned = first :: rest ∧ first ≠ '-' ∧ first ≠ '+' := by
    rcases List.forall₂_cons_right_iff.1 named with ⟨first, rest, same, -, rfl⟩
    refine ⟨first, rest, rfl, ?_⟩
    rcases same with rfl | rfl
    · exact ⟨noSign.1, noSign.2.1⟩
    · exact noSign.2.2
  rcases read with (short | long) | word | wellFormed
  · exact starts short (by decide)
  · exact starts long (by decide)
  · exact starts word (by decide)
  · rcases wellFormed.starts with ⟨first, rest, text_eq, isDigit | rfl⟩
    · exact ⟨first, rest, text_eq, not_sign_of_isDigit isDigit⟩
    · exact ⟨'.', rest, text_eq, by decide⟩

theorem readFloat_eq_ok_iff {text : String} {value : Float} :
    readFloat text = .ok value ↔ FloatText text.toList value := by
  have read_eq : readFloat text = if text.isEmpty then .error .emptyFloat
      else readUnsigned (splitSign text.toList).1 (splitSign text.toList).2 := rfl
  rw [read_eq]
  constructor
  · intro read
    rcases exists_signMark text.toList with ⟨sign, text_eq, negative_eq⟩
    split at read
    case isTrue => exact nomatch read
    case isFalse =>
      rw [readUnsigned_eq_ok_iff, negative_eq] at read
      exact ⟨sign, _, text_eq, read⟩
  · rintro ⟨sign, unsigned, text_eq, read⟩
    rcases read.starts with ⟨first, rest, rfl, noSign⟩
    have nonempty : ¬text.isEmpty = true := by
      rw [String.isEmpty_iff, ← String.toList_eq_nil_iff, text_eq]
      simp
    have parts : splitSign text.toList = (sign.negative, first :: rest) := by
      rw [text_eq]
      exact splitSign_append sign (by rintro character ⟨⟩; exact noSign)
    rw [if_neg nonempty, parts]
    exact readUnsigned_eq_ok_iff.2 read

end Floats

end HingeLoss.Decimal
