import HingeLoss.Document.Model
import HingeLoss.Proofs.Problem.Outcomes
import HingeLoss.Proofs.Program.Numbering
import Mathlib.Data.List.Induction

/-!
# Declared variables

Declaring names gives the distinct ones consecutive numbers, in the order in which they first
appear. Looking up a name therefore finds the variable whose number says at which place the name
first appeared, and a choice of values for the names is a point on the variables.
-/

namespace HingeLoss

theorem eraseDups_snoc_of_mem {seen : List String} {name : String} (known : name ∈ seen) :
    (seen ++ [name]).eraseDups = seen.eraseDups := by
  simp [List.eraseDups_append, List.removeAll, known]

theorem eraseDups_snoc_of_not_mem {seen : List String} {name : String} (unknown : name ∉ seen) :
    (seen ++ [name]).eraseDups = seen.eraseDups ++ [name] := by
  simp [List.eraseDups_append, List.removeAll, List.eraseDups_cons, unknown]

theorem nodup_eraseDups (names : List String) : names.eraseDups.Nodup := by
  induction names using List.reverseRecOn with
  | nil => exact List.nodup_nil
  | append_singleton seen name ih =>
      by_cases known : name ∈ seen
      · rwa [eraseDups_snoc_of_mem known]
      · rw [eraseDups_snoc_of_not_mem known, ← List.concat_eq_append]
        exact List.Nodup.concat (fun member => known (List.mem_eraseDups.1 member)) ih

namespace DecisionVariables

variable {K : Type} {supply : Supply} {names : List String} {name : String}

/-- The variable that the supply gives to a name at some place. -/
def leafAt (supply : Supply) (name : String) (place : Nat) : Variable :=
  ⟨(supply.skip place).draw.1, some name, false⟩

@[simp]
theorem id_leafAt (supply : Supply) (name : String) (place : Nat) :
    (leafAt supply name place).id = ⟨supply.next + place⟩ := rfl

/-- Variables for names, with consecutive numbers from the supply. -/
def numbered (supply : Supply) (names : List String) : DecisionVariables K :=
  ⟨names.zipIdx.map fun (name, place) => (name, .var (leafAt supply name place))⟩

theorem numbered_snoc (supply : Supply) (names : List String) (name : String) :
    (numbered supply (names ++ [name]) : DecisionVariables K) =
      (numbered supply names).push name (.var (leafAt supply name names.length)) := by
  simp [numbered, push, List.zipIdx_append]

@[simp]
theorem mem_entries_numbered {entry : String × Expression K} :
    entry ∈ (numbered supply names).entries ↔
      ∃ place, names[place]? = some entry.1 ∧ entry.2 = .var (leafAt supply entry.1 place) := by
  rcases entry with ⟨name, expression⟩
  simp only [numbered, List.mem_map, Prod.exists, List.mem_zipIdx_iff_getElem?, Prod.mk.injEq]
  constructor
  · rintro ⟨name, place, atPlace, rfl, rfl⟩
    exact ⟨place, atPlace, rfl⟩
  · rintro ⟨place, atPlace, rfl⟩
    exact ⟨name, place, atPlace, rfl, rfl⟩

theorem find?_numbered :
    (numbered supply names : DecisionVariables K).find? name =
      (names.idxOf? name).map fun place => .var (leafAt supply name place) :=
  lookup_map_zipIdx (fun name place => Expression.var (leafAt supply name place)) names name

theorem find?_numbered_eq_none (supply : Supply) :
    (numbered supply names : DecisionVariables K).find? name = none ↔ name ∉ names := by
  rw [find?_numbered, Option.map_eq_none_iff, List.idxOf?_eq_none_iff]

theorem exists_find?_numbered (supply : Supply) (member : name ∈ names) :
    ∃ place, names[place]? = some name ∧
      (numbered supply names : DecisionVariables K).find? name =
        some (.var (leafAt supply name place)) := by
  cases found : names.idxOf? name with
  | none =>
      rw [List.idxOf?_eq_none_iff] at found
      exact absurd member found
  | some place =>
      rcases List.idxOf?_eq_some_iff.1 found with ⟨inside, same, -⟩
      refine ⟨place, by rw [List.getElem?_eq_getElem inside, same], ?_⟩
      rw [find?_numbered, found, Option.map_some]

theorem find?_numbered_of_getElem? {place : Nat} (supply : Supply) (distinct : names.Nodup)
    (atPlace : names[place]? = some name) :
    (numbered supply names : DecisionVariables K).find? name =
      some (.var (leafAt supply name place)) := by
  rw [find?_numbered, idxOf?_of_getElem? distinct atPlace, Option.map_some]

/-- The point at which the variable of each name has the value of the name. -/
def pointOf (supply : Supply) (names : List String) (x : String → ℚ) (id : VarId) : ℚ :=
  x (names[id.index - supply.next]?.getD "")

theorem pointOf_leafAt {place : Nat} (x : String → ℚ) (atPlace : names[place]? = some name) :
    pointOf supply names x (leafAt supply name place).id = x name := by
  simp [pointOf, leafAt, Supply.skip, atPlace]

theorem issued_leafAt {place : Nat} (atPlace : names[place]? = some name) :
    (supply.skip names.length).Issued (leafAt supply name place).id := by
  have inside := (List.getElem?_eq_some_iff.1 atPlace).1
  simpa [Supply.Issued, Supply.skip, leafAt] using inside

section Declaring

/-- The names that are declared although they were declared before, one for each time. -/
def repeated (names : List String) : List String :=
  (names.zipIdx.filter fun (name, place) => decide (name ∈ names.take place)).map Prod.fst

theorem repeated_snoc (names : List String) (name : String) :
    repeated (names ++ [name]) = repeated names ++ if name ∈ names then [name] else [] := by
  have inside : (names.zipIdx.filter fun (other, place) =>
      decide (other ∈ (names ++ [name]).take place)) =
        names.zipIdx.filter fun (other, place) => decide (other ∈ names.take place) := by
    apply List.filter_congr
    rintro ⟨other, place⟩ member
    have before := (List.getElem?_eq_some_iff.1 (List.mem_zipIdx_iff_getElem?.1 member)).1
    simp only [List.take_append_of_le_length before.le]
  have last : ([name].zipIdx names.length).filter (fun (other, place) =>
      decide (other ∈ (names ++ [name]).take place)) =
        if name ∈ names then [(name, names.length)] else [] := by
    by_cases known : name ∈ names <;> simp [known]
  rw [repeated, List.zipIdx_append, List.filter_append, List.map_append, inside, Nat.zero_add, last,
    ← repeated]
  split <;> rfl

/-- What is reported of a name that is declared again. -/
def duplicateWarning (name : String) : LogEvent :=
  ⟨.warn, .builder, "duplicate variable declaration ignored", [("variable", name)]⟩

variable {m : Type → Type} [Monad m] [LawfulMonad m] [Logger m]

theorem declare_append (decisions : DecisionVariables K) (names rest : List String) :
    (decisions.declare (names ++ rest) : Modelling m _) =
      decisions.declare names >>= fun declared => declared.declare rest := by
  induction names generalizing decisions with
  | nil => simp [declare]
  | cons name names ih =>
      simp only [List.cons_append, declare]
      cases decisions.find? name with
      | some expression => simp only [ih, bind_assoc]
      | none => simp only [ih, bind_assoc]

/-- Each name takes a number when it is first declared, and is warned about from then on. -/
theorem emits_declare (supply : Supply) (names : List String) :
    Modelling.Emits ((numbered supply [] : DecisionVariables K).declare names : Modelling m _)
      supply ((repeated names).map duplicateWarning) (.ok (numbered supply names.eraseDups))
      (supply.skip names.eraseDups.length) := by
  induction names using List.reverseRecOn with
  | nil => exact Modelling.emits_pure _ _
  | append_singleton names name ih =>
      rw [declare_append, repeated_snoc, List.map_append]
      refine ih.bind ?_
      cases found : (numbered supply names.eraseDups : DecisionVariables K).find? name with
      | some expression =>
          have known : name ∈ names := by
            by_contra unknown
            rw [← List.mem_eraseDups, ← find?_numbered_eq_none (K := K) supply] at unknown
            simp [found] at unknown
          rw [eraseDups_snoc_of_mem known, if_pos known]
          simp only [declare, found]
          exact (Modelling.emits_emit _ _).bind (Modelling.emits_pure _ _)
      | none =>
          have unknown : name ∉ names := by
            rwa [find?_numbered_eq_none, List.mem_eraseDups] at found
          rw [eraseDups_snoc_of_not_mem unknown, numbered_snoc, List.length_append,
            if_neg unknown]
          simp only [declare, found]
          exact (Modelling.emits_freshId _).bind (Modelling.emits_pure _ _)

end Declaring

end DecisionVariables

end HingeLoss
