import HingeLoss.Text.Blank
import Mathlib.Data.List.DropRight
import Mathlib.Data.List.Forall2

/-!
# Trimmed text and words in any case

Trimming takes the white space off both ends of a text and nothing else, so what is left can be told
by how the text is made up. A word is matched in any case if each of its letters is written small or
as a capital.
-/

namespace HingeLoss.Text

variable {text core word : List Char}

section Trimming

/-- The text is its core between white space, and the core has none at its ends. -/
structure Trims (text core : List Char) : Prop where
  split : ∃ before after, text = before ++ core ++ after ∧
    (∀ character ∈ before, isBlank character = true) ∧
      ∀ character ∈ after, isBlank character = true
  first : ∀ character ∈ core.head?, isBlank character = false
  last : ∀ character ∈ core.getLast?, isBlank character = false

theorem dropWhile_append_eq {before rest : List Char}
    (blank : ∀ character ∈ before, isBlank character = true)
    (stops : ∀ character ∈ rest.head?, isBlank character = false) :
    (before ++ rest).dropWhile isBlank = rest := by
  rw [List.dropWhile_append_of_pos blank]
  cases rest with
  | nil => rfl
  | cons character others =>
      have visible : isBlank character = false := stops character rfl
      exact List.dropWhile_cons_of_neg (by simp [visible])

theorem Trims.trimmed_eq (trims : Trims text core) : trimmed text = core := by
  rcases trims with ⟨⟨before, after, rfl, blankBefore, blankAfter⟩, first, last⟩
  have blankBehind : ∀ character ∈ after.reverse, isBlank character = true := by
    simpa using blankAfter
  rw [trimmed, List.append_assoc]
  cases core with
  | nil =>
      rw [List.nil_append, List.dropWhile_append_of_pos blankBefore,
        List.dropWhile_eq_nil_iff.2 blankAfter]
      rfl
  | cons character others =>
      rw [dropWhile_append_eq blankBefore (by simpa using first), List.reverse_append,
        dropWhile_append_eq blankBehind (by rwa [List.head?_reverse]), List.reverse_reverse]

theorem not_blank_of_mem_head?_dropWhile (text : List Char) :
    ∀ character ∈ (text.dropWhile isBlank).head?, isBlank character = false := by
  intro character mem
  have stops := List.head?_dropWhile_not isBlank text
  rw [Option.mem_def.1 mem] at stops
  exact stops

theorem trims_trimmed (text : List Char) : Trims text (trimmed text) := by
  have rest_eq : trimmed text = (text.dropWhile isBlank).rdropWhile isBlank := rfl
  constructor
  case split =>
    refine ⟨text.takeWhile isBlank, (text.dropWhile isBlank).rtakeWhile isBlank, ?_, ?_, ?_⟩
    · rw [rest_eq, List.append_assoc, List.rdropWhile_append_rtakeWhile]
      exact (List.takeWhile_append_dropWhile).symm
    · exact fun character mem => List.mem_takeWhile_imp mem
    · exact fun character mem => List.mem_rtakeWhile_imp mem
  case first =>
    intro character mem
    apply not_blank_of_mem_head?_dropWhile text
    rcases List.rdropWhile_prefix isBlank (text.dropWhile isBlank) with ⟨after, whole⟩
    rw [← rest_eq] at whole
    rw [← whole, List.head?_append, Option.mem_def.1 mem]
    rfl
  case last =>
    rw [trimmed, List.getLast?_reverse]
    exact not_blank_of_mem_head?_dropWhile _

theorem trimmed_eq_iff : trimmed text = core ↔ Trims text core :=
  ⟨fun trimmed_eq => trimmed_eq ▸ trims_trimmed text, Trims.trimmed_eq⟩

end Trimming

section Case

/-- The text is the word, with each letter small or a capital. -/
def InAnyCase (text word : List Char) : Prop :=
  List.Forall₂ (fun character letter => character = letter ∨ character = letter.toUpper) text word

theorem toNat_toLower (character : Char) :
    character.toLower.toNat =
      if 65 ≤ character.toNat ∧ character.toNat ≤ 90 then character.toNat + 32
      else character.toNat := by
  have range : character.val ≥ 'A'.val ∧ character.val ≤ 'Z'.val ↔
      65 ≤ character.toNat ∧ character.toNat ≤ 90 := by
    simp [UInt32.le_iff_toNat_le]
  delta Char.toLower
  simp only [range]
  split
  case isTrue capital =>
    have offset : ('a'.val - 'A'.val).toNat = 32 := by decide
    change (character.val + ('a'.val - 'A'.val)).toNat = _
    rw [UInt32.toNat_add, Char.toNat_val, offset]
    omega
  case isFalse => rfl

theorem toNat_toUpper (character : Char) :
    character.toUpper.toNat =
      if 97 ≤ character.toNat ∧ character.toNat ≤ 122 then character.toNat - 32
      else character.toNat := by
  have range : 'a'.val ≤ character.val ∧ character.val ≤ 'z'.val ↔
      97 ≤ character.toNat ∧ character.toNat ≤ 122 := by
    simp [UInt32.le_iff_toNat_le]
  delta Char.toUpper
  simp only [range]
  split
  case isTrue small =>
    have offset : ('A'.val - 'a'.val).toNat = 2 ^ 32 - 32 := by decide
    change (character.val + ('A'.val - 'a'.val)).toNat = _
    rw [UInt32.toNat_add, Char.toNat_val, offset]
    omega
  case isFalse => rfl

theorem toLower_eq_iff {character letter : Char} (small : letter.isUpper = false) :
    character.toLower = letter ↔ character = letter ∨ character = letter.toUpper := by
  have noCapital : ¬(65 ≤ letter.toNat ∧ letter.toNat ≤ 90) := by
    delta Char.isUpper at small
    simpa [UInt32.le_iff_toNat_le] using small
  rw [← Char.toNat_inj, ← Char.toNat_inj, ← Char.toNat_inj, toNat_toLower, toNat_toUpper]
  split <;> split <;> omega

theorem map_toLower_eq_iff (small : word.any Char.isUpper = false) :
    text.map Char.toLower = word ↔ InAnyCase text word := by
  induction word generalizing text with
  | nil => simp [InAnyCase]
  | cons letter word ih =>
      rw [List.any_cons, Bool.or_eq_false_iff] at small
      cases text with
      | nil => simp [InAnyCase]
      | cons character text =>
          rw [List.map_cons, List.cons.injEq, InAnyCase, List.forall₂_cons, ih small.2,
            toLower_eq_iff small.1]
          rfl

end Case

end HingeLoss.Text
