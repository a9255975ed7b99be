import HingeLoss.Document.Printing
import HingeLoss.Json.Value
import HingeLoss.Proofs.Failure
import HingeLoss.Proofs.Json.Strings
import Mathlib.Data.List.Forall2

/-!
# Lists and records that are written and read again

If the texts of the elements are read as the elements, whatever follows them, then so is the text of
their list, and likewise for the members of a record.
-/

namespace HingeLoss.Json

/-- What may follow a value: a comma, a closing bracket, or nothing. -/
def Closes (rest : Source) : Prop :=
  ∀ next, rest.head? = some next → next = some ',' ∨ next = some ']' ∨ next = some '\x7d'

theorem closes_nil : Closes [] := by simp [Closes]

theorem closes_cons {next : Char} (rest : Source)
    (closing : next = ',' ∨ next = ']' ∨ next = '\x7d') : Closes (some next :: rest) := by
  simp [Closes, closing]

theorem sourceOf_append (first second : String) :
    sourceOf (first ++ second) = sourceOf first ++ sourceOf second := by
  rw [sourceOf, String.toList_append, List.map_append]
  rfl

namespace Reader

variable {α σ : Type}

/-- The text is read as the value, whatever follows it. Its first character tells it from the end of
a list. -/
structure Reads (reader : Reader α) (text : String) (value : α) : Prop where
  begins : ∃ first others,
    text.toList = first :: others ∧ isSpace (some first) = false ∧ first ≠ ']'
  run : ∀ rest, Closes rest → reader.run (sourceOf text ++ rest) = .ok (value, rest)

theorem run_peekToken {next : Option Char} (visible : isSpace next = false) (rest : Source) :
    peekToken.run (next :: rest) = .ok (some next, next :: rest) := by
  have kept : (next :: rest).dropWhile isSpace = next :: rest := by
    rw [List.dropWhile_cons, if_neg (by simp [visible])]
  change Except.ok (((next :: rest).dropWhile isSpace).head?, (next :: rest).dropWhile isSpace) = _
  rw [kept]
  rfl

theorem Reads.runWhole_eq {reader : Reader α} {text : String} {value : α}
    (reads : Reads reader text value) : runWhole reader (sourceOf text) = .ok value := by
  have run := reads.run [] closes_nil
  rw [List.append_nil] at run
  rw [runWhole, run]
  rfl

/-- The texts, each behind a comma. -/
def following (texts : List String) : Source :=
  texts.flatMap fun text => some ',' :: sourceOf text

theorem sourceOf_intercalate_cons (text : String) (texts : List String) :
    sourceOf (",".intercalate (text :: texts)) = sourceOf text ++ following texts := by
  induction texts generalizing text with
  | nil => simp [following]
  | cons next others ih =>
      rw [String.intercalate_cons_cons, sourceOf_append, sourceOf_append, ih]
      simp [following, sourceOf]

theorem length_le_following (texts : List String) : texts.length ≤ (following texts).length := by
  induction texts with
  | nil => simp
  | cons text others ih =>
      simp only [following, List.flatMap_cons, List.length_append, List.length_cons] at ih ⊢
      omega

theorem Reads.run_nextElement {element : Reader α} {text : String} {value : α}
    (reads : Reads element text value) {rest : Source} (closes : Closes rest) :
    (nextElement element true).run (sourceOf text ++ rest) = .ok (some value, rest) ∧
      (nextElement element false).run (some ',' :: (sourceOf text ++ rest)) =
        .ok (some value, rest) := by
  rcases reads.begins with ⟨first, others, begins, visible, notEnd⟩
  have run := reads.run rest closes
  have comma : isSpace (some ',') = false := rfl
  rw [sourceOf, begins, List.map_cons, List.cons_append] at run ⊢
  constructor
  · simp [nextElement, run_peekToken visible, notEnd, run]
  · simp [nextElement, run_peekToken comma, run_peekToken visible, notEnd, run, eat]

theorem run_nextElement_end (element : Reader α) (first : Bool) (rest : Source) :
    (nextElement element first).run (some ']' :: rest) = .ok (none, some ']' :: rest) := by
  have visible : isSpace (some ']') = false := rfl
  simp [nextElement, run_peekToken visible]

theorem closes_following (texts : List String) (closing : Source) (closes : Closes closing) :
    Closes (following texts ++ closing) := by
  cases texts with
  | nil => exact closes
  | cons text others => exact closes_cons _ (.inl rfl)

section Lists

variable {element : Reader α} {texts : List String} {values : List α}

theorem run_elements_following (each : List.Forall₂ (Reads element) texts values)
    (rest : Source) {fuel : Nat} (enough : texts.length < fuel) :
    (elements element fuel false).run (following texts ++ some ']' :: rest) =
      .ok (values, some ']' :: rest) := by
  induction each generalizing fuel with
  | nil =>
      cases fuel with
      | zero => omega
      | succ fuel =>
        simp [elements, following, run_nextElement_end]
  | @cons text value texts values reads others ih =>
      cases fuel with
      | zero => omega
      | succ fuel =>
        rw [List.length_cons] at enough
        have closes := closes_following texts _ (closes_cons rest (.inr (.inl rfl)))
        have head := (reads.run_nextElement closes).2
        have tail := ih (Nat.lt_of_succ_lt_succ enough)
        simp only [following, List.flatMap_cons, List.cons_append, List.append_assoc] at head tail ⊢
        simp [elements, head, tail]

theorem run_elements (each : List.Forall₂ (Reads element) texts values)
    (rest : Source) {fuel : Nat} (enough : texts.length < fuel) :
    (elements element fuel true).run (sourceOf (",".intercalate texts) ++ some ']' :: rest) =
      .ok (values, some ']' :: rest) := by
  cases fuel with
  | zero => omega
  | succ fuel =>
    cases each with
    | nil =>
        simp [elements, sourceOf, run_nextElement_end]
    | @cons text value texts values reads others =>
        rw [List.length_cons] at enough
        have closes := closes_following texts _ (closes_cons rest (.inr (.inl rfl)))
        have head := (reads.run_nextElement closes).1
        have tail := run_elements_following others rest (Nat.lt_of_succ_lt_succ enough)
        rw [sourceOf_intercalate_cons, List.append_assoc]
        simp [elements, head, tail]

theorem length_le_sourceOf_intercalate (texts : List String) :
    texts.length ≤ (sourceOf (",".intercalate texts)).length + 1 := by
  cases texts with
  | nil => simp
  | cons text others =>
      have inner := length_le_following others
      rw [sourceOf_intercalate_cons, List.length_append, List.length_cons]
      omega

theorem run_closeList (rest : Source) : closeList.run (some ']' :: rest) = .ok ((), rest) := by
  have visible : isSpace (some ']') = false := rfl
  simp [closeList, run_peekToken visible, eat]

theorem run_listBody (each : List.Forall₂ (Reads element) texts values) (rest : Source) :
    (listBody element).run (sourceOf (",".intercalate texts) ++ some ']' :: rest) =
      .ok (values, rest) := by
  have count := length_le_sourceOf_intercalate texts
  have enough : texts.length <
      (sourceOf (",".intercalate texts) ++ some ']' :: rest).length + 1 := by
    rw [List.length_append, List.length_cons]
    omega
  have found := run_elements each rest enough
  rw [listBody, StateT.run_bind, StateT.run_get, pure_bind, StateT.run_bind, found, ok_bind]
  simp [run_closeList]

theorem run_enter {depth : Nat} (deep : 1 < depth) (next : Option Char) (rest : Source) :
    (enter depth).run (next :: rest) = .ok ((), rest) := by
  simp [enter, eat, Nat.not_le.2 deep]

theorem Reads.list {depth : Nat} (each : List.Forall₂ (Reads element) texts values)
    (deep : 1 < depth) : Reads (list depth element) (writtenList texts) values := by
  constructor
  case begins =>
    rw [writtenList, String.toList_append, String.toList_append]
    exact ⟨'[', _, rfl, rfl, by decide⟩
  case run =>
    intro rest _
    have opening : isSpace (some '[') = false := rfl
    have first : sourceOf "[" = [some '['] := rfl
    have last : sourceOf "]" = [some ']'] := rfl
    rw [writtenList, sourceOf_append, sourceOf_append, first, last, List.append_assoc,
      List.append_assoc, List.singleton_append, List.singleton_append]
    simp [Reader.list, run_peekToken opening, run_enter deep, run_listBody each]

end Lists

section Records

variable {member : String → σ → Reader σ}

/-- Members of a record that are read one after the other, each from behind its key. -/
inductive Collects (member : String → σ → Reader σ) : σ → List (String × String) → σ → Prop
  | nil {collected} : Collects member collected [] collected
  | cons {key text others before middle after}
      (first : ∀ rest, Closes rest →
        (member key before).run (some ':' :: (sourceOf text ++ rest)) = .ok (middle, rest))
      (further : Collects member middle others after) :
      Collects member before ((key, text) :: others) after

theorem Collects.append {before middle after : σ} {entries others : List (String × String)}
    (first : Collects member before entries middle) (second : Collects member middle others after) :
    Collects member before (entries ++ others) after := by
  induction first with
  | nil => exact second
  | cons first _ ih => exact .cons first (ih second)

def memberText (entry : String × String) : String := quoted entry.1 ++ ":" ++ entry.2

theorem sourceOf_memberText (key text : String) (rest : Source) :
    sourceOf (memberText (key, text)) ++ rest =
      sourceOf (quoted key) ++ some ':' :: (sourceOf text ++ rest) := by
  have colon : sourceOf ":" = [some ':'] := rfl
  rw [memberText, sourceOf_append, sourceOf_append, colon, List.append_assoc, List.append_assoc,
    List.singleton_append]

theorem run_nextKey (key : String) (rest : Source) :
    (nextKey true).run (sourceOf (quoted key) ++ rest) = .ok (some key, rest) ∧
      (nextKey false).run (some ',' :: (sourceOf (quoted key) ++ rest)) = .ok (some key, rest) := by
  have run := run_string key rest
  have comma : isSpace (some ',') = false := rfl
  have quote : isSpace (some '"') = false := rfl
  change string.run (sourceOf (quoted key) ++ rest) = _ at run
  obtain ⟨body, opened⟩ : ∃ body, sourceOf (quoted key) = some '"' :: body := by
    rw [quoted, sourceOf, String.toList_ofList, List.map_cons]
    exact ⟨_, rfl⟩
  rw [opened, List.cons_append] at run ⊢
  constructor
  · simp [nextKey, run_peekToken quote, run]
  · simp [nextKey, run_peekToken comma, run_peekToken quote, run, eat]

theorem run_nextKey_end (first : Bool) (rest : Source) :
    (nextKey first).run (some '\x7d' :: rest) = .ok (none, some '\x7d' :: rest) := by
  have visible : isSpace (some '\x7d') = false := rfl
  simp [nextKey, run_peekToken visible]

theorem run_members_following {before after : σ} {entries : List (String × String)}
    (collects : Collects member before entries after) (rest : Source) {fuel : Nat}
    (enough : entries.length < fuel) :
    (members member fuel false before).run
        (following (entries.map memberText) ++ some '\x7d' :: rest) =
      .ok (after, some '\x7d' :: rest) := by
  induction collects generalizing fuel with
  | nil =>
      cases fuel with
      | zero => omega
      | succ fuel =>
        simp [members, following, run_nextKey_end]
  | @cons key text others before middle after first collects ih =>
      cases fuel with
      | zero => omega
      | succ fuel =>
        rw [List.length_cons] at enough
        have closes := closes_following (others.map memberText) _
          (closes_cons rest (.inr (.inr rfl)))
        have key_read := fun (rest : Source) => (run_nextKey key rest).2
        have tail := ih (Nat.lt_of_succ_lt_succ enough)
        have head := first _ closes
        rw [List.map_cons]
        simp only [following, List.flatMap_cons, List.cons_append, List.append_assoc,
          sourceOf_memberText] at head tail ⊢
        simp [members, key_read, head, tail]

theorem run_members {before after : σ} {entries : List (String × String)}
    (collects : Collects member before entries after) (rest : Source) {fuel : Nat}
    (enough : entries.length < fuel) :
    (members member fuel true before).run
        (sourceOf (",".intercalate (entries.map memberText)) ++ some '\x7d' :: rest) =
      .ok (after, some '\x7d' :: rest) := by
  cases fuel with
  | zero => omega
  | succ fuel =>
    cases collects with
    | nil =>
        simp [members, sourceOf, run_nextKey_end]
    | @cons key text others _ middle _ first collects =>
        rw [List.length_cons] at enough
        have closes := closes_following (others.map memberText) _
          (closes_cons rest (.inr (.inr rfl)))
        have key_read := fun (rest : Source) => (run_nextKey key rest).1
        have tail := run_members_following collects rest (Nat.lt_of_succ_lt_succ enough)
        have head := first _ closes
        rw [List.map_cons, sourceOf_intercalate_cons, List.append_assoc, sourceOf_memberText]
        simp [members, key_read, head, tail]

theorem run_recordBody {before after : σ} {entries : List (String × String)}
    (collects : Collects member before entries after) (rest : Source) :
    (recordBody member before).run
        (sourceOf (",".intercalate (entries.map memberText)) ++ some '\x7d' :: rest) =
      .ok (after, some '\x7d' :: rest) := by
  have count := length_le_sourceOf_intercalate (entries.map memberText)
  rw [List.length_map] at count
  have enough : entries.length <
      (sourceOf (",".intercalate (entries.map memberText)) ++ some '\x7d' :: rest).length + 1 := by
    rw [List.length_append, List.length_cons]
    omega
  have found := run_members collects rest enough
  rw [recordBody, StateT.run_bind, StateT.run_get, pure_bind]
  exact found

theorem sourceOf_writtenRecord (entries : List (String × String)) (rest : Source) :
    sourceOf (writtenRecord entries) ++ rest =
      some '\x7b' :: (sourceOf (",".intercalate (entries.map memberText)) ++
        some '\x7d' :: rest) := by
  have first : sourceOf "\x7b" = [some '\x7b'] := rfl
  have last : sourceOf "\x7d" = [some '\x7d'] := rfl
  change sourceOf ("\x7b" ++ ",".intercalate (entries.map memberText) ++ "\x7d") ++ rest = _
  rw [sourceOf_append, sourceOf_append, first, last, List.append_assoc, List.append_assoc]
  rfl

theorem begins_writtenRecord (entries : List (String × String)) :
    ∃ first others, (writtenRecord entries).toList = first :: others ∧
      isSpace (some first) = false ∧ first ≠ ']' := by
  rw [writtenRecord, String.toList_append, String.toList_append]
  exact ⟨'\x7b', _, rfl, rfl, by decide⟩

theorem Reads.record {α : Type} {depth : Nat} {wanted : String} {listed : Reader α}
    {finish : σ → Reader α} {start last : σ} {value : α} {entries : List (String × String)}
    (deep : 1 < depth) (collects : Collects member start entries last)
    (finishes : finish last = pure value) :
    Reads (record depth wanted (recordBody member start >>= finish) listed)
      (writtenRecord entries) value := by
  refine ⟨begins_writtenRecord entries, ?_⟩
  intro rest _
  have opening : isSpace (some '\x7b') = false := rfl
  have body := run_recordBody collects rest
  rw [sourceOf_writtenRecord]
  simp [Reader.record, run_peekToken opening, run_enter deep, body, finishes, eat]

/-- A field that has not been given yet is read and stored. -/
theorem Reads.run_field {value : Reader α} {text : String} {found : α}
    (reads : Reads value text found) (name : String) (store : α → σ) (rest : Source)
    (closes : Closes rest) :
    (field name none value store).run (some ':' :: (sourceOf text ++ rest)) =
      .ok (store found, rest) := by
  have visible : isSpace (some ':') = false := rfl
  simp [field, colon, run_peekToken visible, eat, reads.run rest closes]

end Records

theorem reads_boolean (value : Bool) : Reads boolean (writtenBool value) value := by
  cases value with
  | true =>
      refine ⟨⟨'t', _, rfl, rfl, by decide⟩, ?_⟩
      intro rest _
      rfl
  | false =>
      refine ⟨⟨'f', _, rfl, rfl, by decide⟩, ?_⟩
      intro rest _
      rfl

end Reader

end HingeLoss.Json
