import HingeLoss.Json.Quoted
import HingeLoss.Proofs.Failure

/-!
# Strings that are written and read again

What is written for a character is read as this character and nothing behind it, so that a string is
read from its own text whatever follows.
-/

namespace HingeLoss.Json

theorem hexCode?_hexDigit {code : Nat} (small : code < 0x20) :
    hexCode? (some '0') (some '0') (some (hexDigit (code / 16))) (some (hexDigit (code % 16))) =
      some code := by
  decide +revert

theorem stringBody_escaped (character : Char) (rest : Source) :
    stringBody ((escaped character).map some ++ rest) =
      before (some character) (stringBody rest) := by
  fun_cases escaped character
  case case8 control =>
    have notTrailing : isTrailing character.toNat = false := by
      simp [isTrailing]
      omega
    have notLeading : isLeading character.toNat = false := by
      simp [isLeading]
      omega
    simp only [List.map_cons, List.map_nil, List.cons_append, List.nil_append]
    rw [stringBody, hexCode?_hexDigit control]
    simp only [notTrailing, notLeading, Bool.false_eq_true, if_false, Char.ofNat_toNat]
  case case9 printable =>
    simp only [List.map_cons, List.map_nil, List.cons_append, List.nil_append]
    rw [stringBody.eq_def]
    split <;> simp_all [Nat.not_lt.2]
  all_goals simp [stringBody, simpleEscape?]

theorem stringBody_quoted (characters : List Char) (rest : Source) :
    stringBody ((characters.flatMap escaped).map some ++ some '"' :: rest) =
      .ok (characters.map some, rest) := by
  induction characters with
  | nil => rw [List.flatMap_nil, List.map_nil, List.nil_append, stringBody]
  | cons character others ih =>
      rw [List.flatMap_cons, List.map_append, List.append_assoc, stringBody_escaped, ih]
      rfl

section Literals

variable {source rest characters : Source}

theorem before_eq_ok_iff {character : Option Char} {read : Except Fault (Source × Source)} :
    before character read = .ok (characters, rest) ↔
      ∃ others, character :: others = characters ∧ read = .ok (others, rest) := by
  cases read with
  | error fault => simp [before, Except.map]
  | ok found =>
      rcases found with ⟨others, after⟩
      simp [before, Except.map]

theorem before_append {character : Option Char} {more : Source}
    (read : before character (stringBody source) = .ok (characters, rest))
    (further : ∀ {characters}, stringBody source = .ok (characters, rest) →
      stringBody (source ++ more) = .ok (characters, rest ++ more)) :
    before character (stringBody (source ++ more)) = .ok (characters, rest ++ more) := by
  rcases before_eq_ok_iff.1 read with ⟨others, rfl, tail⟩
  exact before_eq_ok_iff.2 ⟨others, rfl, further tail⟩

/-- What stands behind the closing quote does not count. -/
theorem stringBody_append (read : stringBody source = .ok (characters, rest)) (more : Source) :
    stringBody (source ++ more) = .ok (characters, rest ++ more) := by
  fun_induction stringBody source generalizing characters
  case case2 =>
    obtain ⟨rfl, rfl⟩ := Prod.mk.inj (Except.ok.inj read)
    simp [stringBody]
  case case6 code isCode notTrailing leading _ _ _ _ _ second isSecond trailing ih =>
    have run := before_append read ih
    simp [stringBody, isCode, notTrailing, leading, isSecond, trailing, run]
  case case12 code isCode notTrailing notLeading ih =>
    have run := before_append read ih
    simp [stringBody, isCode, notTrailing, notLeading, run]
  case case14 letter _ _ notCode character escape ih =>
    -- More characters behind the letter could complete a code only if it began one.
    have run := before_append read ih
    rw [List.cons_append, List.cons_append, stringBody, escape]
    · exact run
    · exact fun _ _ _ _ _ _ => notCode
    · exact notCode
  case case18 ih =>
    have run := before_append read ih
    simp [stringBody, run]
  case case20 character following _ _ _ letter last gap printable ih =>
    have run := before_append read ih
    have notEscape : character ≠ '\\' := by
      rcases following with _ | ⟨_ | next, following⟩
      · exact last rfl
      · exact gap _ rfl
      · exact letter _ _ rfl
    rw [List.cons_append, stringBody.eq_def]
    split <;> simp_all
  -- All other cases are faults.
  all_goals exact nomatch read

/-- A string as JSON may write it, with the text that it stands for. -/
structure StringLiteral where
  text : String
  content : String
  body : List Char
  opens : text.toList = '"' :: body
  closes : stringBody (body.map some) = .ok (content.toList.map some, [])

/-- What is written for a text is one of its literals. -/
def StringLiteral.ofQuoted (text : String) : StringLiteral where
  text := quoted text
  content := text
  body := text.toList.flatMap escaped ++ ['"']
  opens := String.toList_ofList
  closes := by
    rw [List.map_append]
    exact stringBody_quoted text.toList []

end Literals

namespace Reader

theorem run_string_literal (literal : StringLiteral) (rest : Source) :
    string.run (sourceOf literal.text ++ rest) = .ok (literal.content, rest) := by
  have run := stringBody_append literal.closes rest
  have decoded : (literal.content.toList.map some).mapM id = some literal.content.toList := by
    have pure := List.mapM_pure (m := Option) (l := literal.content.toList) (f := id)
    rw [List.map_id] at pure
    rw [List.mapM_map]
    exact pure
  rw [sourceOf, literal.opens, List.map_cons, List.cons_append]
  simp [string, eat, run, decoded]

theorem run_string (text : String) (rest : Source) :
    string.run ((quoted text).toList.map some ++ rest) = .ok (text, rest) :=
  run_string_literal (.ofQuoted text) rest

end Reader

end HingeLoss.Json
