import HingeLoss.Program.Conic
import HingeLoss.Proofs.Scalar
import Mathlib.Data.List.Nodup

/-!
# Columns and variables

Every listed variable has exactly one column, and every column belongs to one variable. Values of
variables and entries of a column vector are therefore the same thing, which `valuesOf` and
`vectorOf` turn into one another.
-/

namespace HingeLoss

theorem idxOf?_of_getElem? {α : Type} [BEq α] [LawfulBEq α] {items : List α} {item : α}
    {place : Nat} (distinct : items.Nodup) (atPlace : items[place]? = some item) :
    items.idxOf? item = some place := by
  rcases List.getElem?_eq_some_iff.1 atPlace with ⟨inside, same⟩
  refine List.idxOf?_eq_some_iff.2 ⟨inside, same, ?_⟩
  intro earlier before equal
  exact before.ne (distinct.getElem_inj_iff.1 (equal.trans same.symm))

namespace Columns

theorem mem_extend {columns ids : List VarId} {id : VarId} :
    id ∈ extend columns ids ↔ id ∈ columns ∨ id ∈ ids := by
  induction ids generalizing columns with
  | nil => simp [extend]
  | cons head rest ih =>
      simp only [extend]
      split
      case isTrue known =>
        rw [ih, List.mem_cons]
        constructor
        · rintro (inColumns | inRest)
          · exact .inl inColumns
          · exact .inr (.inr inRest)
        · rintro (inColumns | rfl | inRest)
          · exact .inl inColumns
          · exact .inl known
          · exact .inr inRest
      case isFalse =>
        simp [ih, or_assoc]

theorem nodup_extend {columns ids : List VarId} (distinct : columns.Nodup) :
    (extend columns ids).Nodup := by
  induction ids generalizing columns with
  | nil => exact distinct
  | cons head rest ih =>
      simp only [extend]
      split
      case isTrue => exact ih distinct
      case isFalse fresh =>
        apply ih
        rw [← List.concat_eq_append]
        exact List.Nodup.concat fresh distinct

/-- Different variables take columns in the order in which they are listed. -/
theorem extend_eq_append {columns ids : List VarId} (distinct : (columns ++ ids).Nodup) :
    extend columns ids = columns ++ ids := by
  induction ids generalizing columns with
  | nil => rw [extend, List.append_nil]
  | cons head rest ih =>
      rw [List.append_cons] at distinct ⊢
      have fresh : head ∉ columns := by
        intro known
        have prefixDistinct := (List.nodup_append.1 distinct).1
        exact (List.nodup_append.1 prefixDistinct).2.2 head known head (by simp) rfl
      rw [extend, if_neg fresh, ih distinct]

@[simp]
theorem mem_ids_ofVariables {ids : List VarId} {id : VarId} :
    id ∈ (ofVariables ids).ids ↔ id ∈ ids := by
  simp [ofVariables, mem_extend]

theorem nodup_ids_ofVariables (ids : List VarId) : (ofVariables ids).ids.Nodup :=
  nodup_extend List.nodup_nil

theorem ids_ofVariables {ids : List VarId} (distinct : ids.Nodup) : (ofVariables ids).ids = ids :=
  extend_eq_append distinct

variable {columns : Columns} {id : VarId} {column : Nat}

theorem getElem?_of_find?_eq_some (found : columns.find? id = some column) :
    columns.ids[column]? = some id := by
  rw [find?, List.idxOf?_eq_some_iff] at found
  rcases found with ⟨inside, same, -⟩
  rw [List.getElem?_eq_getElem inside, same]

theorem lt_count_of_find?_eq_some (found : columns.find? id = some column) :
    column < columns.count :=
  (List.getElem?_eq_some_iff.1 (getElem?_of_find?_eq_some found)).1

theorem exists_find?_eq_some (member : id ∈ columns.ids) :
    ∃ column, columns.find? id = some column := by
  cases found : columns.find? id with
  | none =>
      rw [find?, List.idxOf?_eq_none_iff] at found
      exact absurd member found
  | some column => exact ⟨column, rfl⟩

theorem find?_eq_some_iff (distinct : columns.ids.Nodup) :
    columns.find? id = some column ↔ columns.ids[column]? = some id :=
  ⟨getElem?_of_find?_eq_some, idxOf?_of_getElem? distinct⟩

section Values

variable {K : Type} [Zero K]

/-- The column of a variable, or zero for a variable that has none. -/
def indexOf (columns : Columns) (id : VarId) : Nat := (columns.find? id).getD 0

def valuesOf (columns : Columns) (vector : Nat → K) (id : VarId) : K := vector (columns.indexOf id)

def vectorOf (columns : Columns) (values : VarId → K) (column : Nat) : K :=
  (columns.ids[column]?.map values).getD 0

theorem find?_eq_some_indexOf (member : id ∈ columns.ids) :
    columns.find? id = some (columns.indexOf id) := by
  rcases exists_find?_eq_some member with ⟨column, found⟩
  rw [indexOf, found, Option.getD_some]

theorem indexOf_lt_count (member : id ∈ columns.ids) : columns.indexOf id < columns.count :=
  lt_count_of_find?_eq_some (find?_eq_some_indexOf member)

theorem valuesOf_vectorOf (values : VarId → K) (member : id ∈ columns.ids) :
    columns.valuesOf (columns.vectorOf values) id = values id := by
  have atIndex := getElem?_of_find?_eq_some (find?_eq_some_indexOf member)
  rw [valuesOf, vectorOf, atIndex, Option.map_some, Option.getD_some]

end Values

end Columns

end HingeLoss
