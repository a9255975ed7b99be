import HingeLoss.Proofs.Expression.Relabelling
import HingeLoss.Proofs.Standard.Auxiliaries

/-!
# Relabelled standard forms

Coefficients are kept in the order of their keys, and every operation on forms goes through them in
that order. A relabelling that goes up on some scope of variables keeps the order of all keys in the
scope, so the forms made from relabelled variables have the same coefficients at the same places. As
fresh numbers lie above all others and go up as well, this carries over to canonical forms: the run
on a relabelled expression draws its auxiliary variables at the same points.
-/

namespace HingeLoss

/-- The numbers in the scope keep their order. -/
def Relabelling.IncreasesOn (relabelling : Relabelling) (scope : VarId → Prop) : Prop :=
  ∀ left right, scope left → scope right → left.index < right.index →
    (relabelling.ids left).index < (relabelling.ids right).index

/-- Comparisons of keys in the scope come out the same after renaming. -/
def KeepsOrder {κ : Type} [Ord κ] (rename : κ → κ) (scope : κ → Prop) : Prop :=
  ∀ left right, scope left → scope right →
    compare (rename left) (rename right) = compare left right

def bothIn (scope : VarId → Prop) (pair : VarId × VarId) : Prop := scope pair.1 ∧ scope pair.2

namespace Relabelling.IncreasesOn

variable {relabelling : Relabelling} {scope : VarId → Prop}

theorem keepsOrder (increases : relabelling.IncreasesOn scope) :
    KeepsOrder relabelling.ids scope := by
  intro left right left_in right_in
  change compare (relabelling.ids left).index (relabelling.ids right).index =
    compare left.index right.index
  rcases Nat.lt_trichotomy left.index right.index with below | same | above
  · have stillBelow := increases left right left_in right_in below
    rw [Nat.compare_eq_lt.2 below, Nat.compare_eq_lt.2 stillBelow]
  · obtain rfl : left = right := by cases left; cases right; simp_all
    rw [Nat.compare_eq_eq.2 rfl, Nat.compare_eq_eq.2 rfl]
  · have stillAbove := increases right left right_in left_in above
    rw [Nat.compare_eq_gt.2 above, Nat.compare_eq_gt.2 stillAbove]

theorem keepsOrder_pairs (increases : relabelling.IncreasesOn scope) :
    KeepsOrder (Prod.map relabelling.ids relabelling.ids) (bothIn scope) := by
  intro left right left_in right_in
  change (compare (relabelling.ids left.1) (relabelling.ids right.1)).then
      (compare (relabelling.ids left.2) (relabelling.ids right.2)) =
    (compare left.1 right.1).then (compare left.2 right.2)
  rw [increases.keepsOrder _ _ left_in.1 right_in.1, increases.keepsOrder _ _ left_in.2 right_in.2]

theorem ids_inj (increases : relabelling.IncreasesOn scope) {left right : VarId}
    (left_in : scope left) (right_in : scope right) :
    relabelling.ids left = relabelling.ids right ↔ left = right := by
  rw [← Std.LawfulEqOrd.compare_eq_iff_eq (a := relabelling.ids left),
    increases.keepsOrder _ _ left_in right_in, Std.LawfulEqOrd.compare_eq_iff_eq]

end Relabelling.IncreasesOn

namespace Coefficients

variable {κ K : Type} [Ord κ] {rename : κ → κ} {scope : κ → Prop}

/-- The right map has the renamed keys of the left one, with the same coefficients, and all keys are
in the scope. -/
structure Renamed (rename : κ → κ) (scope : κ → Prop) (left right : Coefficients κ K) : Prop where
  inScope : ∀ key ∈ left.keys, scope key
  entries : right.entries = left.entries.map fun entry => (rename entry.1, entry.2)

theorem updateEntries_map (keepsOrder : KeepsOrder rename scope) {key : κ} (key_in : scope key)
    (update : Option K → K) {entries : List (κ × K)}
    (entries_in : ∀ entry ∈ entries, scope entry.1) :
    updateEntries (rename key) update (entries.map fun entry => (rename entry.1, entry.2)) =
      (updateEntries key update entries).map fun entry => (rename entry.1, entry.2) := by
  induction entries with
  | nil => rfl
  | cons head rest ih =>
      rw [List.forall_mem_cons] at entries_in
      have fromRest := ih entries_in.2
      simp only [List.map_cons, updateEntries, keepsOrder _ _ key_in entries_in.1]
      cases compare key head.1 with
      | lt => rfl
      | eq => rfl
      | gt => simp only [List.map_cons, fromRest]

theorem renamed_empty : (empty : Coefficients κ K).Renamed rename scope empty :=
  ⟨by simp, rfl⟩

theorem renamed_single {key : κ} (key_in : scope key) (coefficient : K) :
    (single key coefficient).Renamed rename scope (single (rename key) coefficient) :=
  ⟨by simpa using key_in, rfl⟩

variable [Scalar K] {left right leftRenamed rightRenamed : Coefficients κ K}

theorem Renamed.scale (renamed : left.Renamed rename scope leftRenamed) (factor : K) :
    (left.scale factor).Renamed rename scope (leftRenamed.scale factor) := by
  constructor
  case inScope => simpa using renamed.inScope
  case entries =>
    change leftRenamed.entries.map _ = (left.entries.map _).map _
    rw [renamed.entries, List.map_map, List.map_map]
    rfl

variable [Std.TransOrd κ] [Std.LawfulEqOrd κ]

theorem Renamed.addAt (keepsOrder : KeepsOrder rename scope)
    (renamed : left.Renamed rename scope leftRenamed) {key : κ} (key_in : scope key)
    (coefficient : K) :
    (left.addAt key coefficient).Renamed rename scope
      (leftRenamed.addAt (rename key) coefficient) := by
  constructor
  case inScope =>
    intro other member
    rcases mem_keys_addAt.1 member with rfl | known
    · exact key_in
    · exact renamed.inScope other known
  case entries =>
    have entries_in : ∀ entry ∈ left.entries, scope entry.1 :=
      fun entry member => renamed.inScope entry.1 (List.mem_map_of_mem member)
    change updateEntries _ _ leftRenamed.entries = _
    rw [renamed.entries, updateEntries_map keepsOrder key_in _ entries_in]
    rfl

theorem Renamed.add (keepsOrder : KeepsOrder rename scope)
    (fromLeft : left.Renamed rename scope leftRenamed)
    (fromRight : right.Renamed rename scope rightRenamed) :
    (left.add right).Renamed rename scope (leftRenamed.add rightRenamed) := by
  have entries_in : ∀ entry ∈ right.entries, scope entry.1 :=
    fun entry member => fromRight.inScope entry.1 (List.mem_map_of_mem member)
  simp only [Coefficients.add, fromRight.entries, List.foldl_map]
  -- The entries of the right map are added one by one to what is there already.
  revert entries_in
  generalize right.entries = entries
  intro entries_in
  induction entries generalizing left leftRenamed with
  | nil => exact fromLeft
  | cons entry rest ih =>
      rw [List.forall_mem_cons] at entries_in
      exact ih (fromLeft.addAt keepsOrder entries_in.1 entry.2) entries_in.2

end Coefficients

section Forms

variable {K : Type} {relabelling : Relabelling} {scope : VarId → Prop}

/-- The right form is the left one over relabelled variables, all of them in the scope. -/
structure LinearForm.Relabelled (relabelling : Relabelling) (scope : VarId → Prop)
    (left right : LinearForm K) : Prop where
  coefficients : left.coefficients.Renamed relabelling.ids scope right.coefficients
  constant : right.constant = left.constant

structure QuadraticForm.Relabelled (relabelling : Relabelling) (scope : VarId → Prop)
    (left right : QuadraticForm K) : Prop where
  products : left.products.Renamed (Prod.map relabelling.ids relabelling.ids) (bothIn scope)
    right.products
  linear : left.linear.Relabelled relabelling scope right.linear
  constant : right.constant = left.constant

inductive StandardForm.Relabelled (relabelling : Relabelling) (scope : VarId → Prop) :
    StandardForm K → StandardForm K → Prop
  | linear {left right} (forms : left.Relabelled relabelling scope right) :
      Relabelled relabelling scope (.linear left) (.linear right)
  | quadratic {left right} (forms : left.Relabelled relabelling scope right) :
      Relabelled relabelling scope (.quadratic left) (.quadratic right)

inductive Cone.Relabelled (relabelling : Relabelling) (scope : VarId → Prop) :
    Cone K → Cone K → Prop
  | zero {left right} (forms : left.Relabelled relabelling scope right) :
      Relabelled relabelling scope (.zero left) (.zero right)
  | nonneg {left right} (forms : left.Relabelled relabelling scope right) :
      Relabelled relabelling scope (.nonneg left) (.nonneg right)
  | secondOrder {left right leftEntries rightEntries}
      (bounds : left.Relabelled relabelling scope right)
      (entries : List.Forall₂ (LinearForm.Relabelled relabelling scope) leftEntries rightEntries) :
      Relabelled relabelling scope (.secondOrder left leftEntries)
        (.secondOrder right rightEntries)

/-- The right result is the left one over relabelled variables. -/
structure Canonical.Relabelled (relabelling : Relabelling) (scope : VarId → Prop)
    (left right : Canonical K) : Prop where
  form : left.form.Relabelled relabelling scope right.form
  cones : List.Forall₂ (Cone.Relabelled relabelling scope) left.cones right.cones

theorem LinearForm.relabelled_ofConstant (value : K) :
    (⟨.empty, value⟩ : LinearForm K).Relabelled relabelling scope ⟨.empty, value⟩ :=
  ⟨Coefficients.renamed_empty, rfl⟩

namespace Canonical

variable {left right : Canonical K}

theorem relabelled_ofLinear {form relabelledForm : LinearForm K}
    (relabelled : form.Relabelled relabelling scope relabelledForm) :
    (ofLinear form).Relabelled relabelling scope (ofLinear relabelledForm) :=
  ⟨.linear relabelled, .nil⟩

/-- A result with a linear form keeps one. -/
theorem Relabelled.exists_linear (relabelled : left.Relabelled relabelling scope right)
    {form : LinearForm K} (linear : left.form = .linear form) :
    ∃ relabelledForm, right.form = .linear relabelledForm ∧
      form.Relabelled relabelling scope relabelledForm := by
  have forms := relabelled.form
  rw [linear] at forms
  generalize right.form = other at forms ⊢
  cases forms with
  | linear forms => exact ⟨_, rfl, forms⟩

theorem Relabelled.extend (relabelled : left.Relabelled relabelling scope right)
    {form relabelledForm : StandardForm K} {cones relabelledCones : List (Cone K)}
    (forms : form.Relabelled relabelling scope relabelledForm)
    (added : List.Forall₂ (Cone.Relabelled relabelling scope) cones relabelledCones)
    (auxiliaries relabelledAuxiliaries : List VarId) :
    (left.extend form cones auxiliaries).Relabelled relabelling scope
      (right.extend relabelledForm relabelledCones relabelledAuxiliaries) :=
  ⟨forms, List.rel_append relabelled.cones added⟩

end Canonical

variable [Scalar K]

namespace LinearForm

variable {left right leftRelabelled rightRelabelled : LinearForm K}

theorem relabelled_ofVariable {id : VarId} (id_in : scope id) :
    (ofVariable id : LinearForm K).Relabelled relabelling scope
      (ofVariable (relabelling.ids id)) :=
  ⟨Coefficients.renamed_single id_in 1, rfl⟩

namespace Relabelled

theorem scale (relabelled : left.Relabelled relabelling scope leftRelabelled) (factor : K) :
    (left.scale factor).Relabelled relabelling scope (leftRelabelled.scale factor) :=
  ⟨relabelled.coefficients.scale factor, congrArg (· * factor) relabelled.constant⟩

theorem neg (relabelled : left.Relabelled relabelling scope leftRelabelled) :
    left.neg.Relabelled relabelling scope leftRelabelled.neg :=
  relabelled.scale (-1)

theorem add (increases : relabelling.IncreasesOn scope)
    (fromLeft : left.Relabelled relabelling scope leftRelabelled)
    (fromRight : right.Relabelled relabelling scope rightRelabelled) :
    (left.add right).Relabelled relabelling scope (leftRelabelled.add rightRelabelled) :=
  ⟨fromLeft.coefficients.add increases.keepsOrder fromRight.coefficients,
    congrArg₂ (· + ·) fromLeft.constant fromRight.constant⟩

/-- A form that is one variable becomes the relabelled variable, and no other form becomes one. -/
theorem singleVariable? (relabelled : left.Relabelled relabelling scope leftRelabelled) :
    leftRelabelled.singleVariable? = left.singleVariable?.map relabelling.ids := by
  simp only [LinearForm.singleVariable?, relabelled.constant, relabelled.coefficients.entries]
  split
  case isFalse => rfl
  case isTrue =>
    rcases left.coefficients.entries with _ | ⟨entry, _ | ⟨second, rest⟩⟩
    · rfl
    · simp only [List.map_cons, List.map_nil]
      split <;> rfl
    · rfl

theorem singleVariable_in (relabelled : left.Relabelled relabelling scope leftRelabelled)
    {id : VarId} (single : left.singleVariable? = some id) : scope id :=
  relabelled.coefficients.inScope id (mem_variableIds_of_singleVariable? single)

end Relabelled

end LinearForm

namespace QuadraticForm

variable {left right leftRelabelled rightRelabelled : QuadraticForm K}

theorem relabelled_ofLinear {form relabelledForm : LinearForm K}
    (relabelled : form.Relabelled relabelling scope relabelledForm) :
    (ofLinear form).Relabelled relabelling scope (ofLinear relabelledForm) :=
  ⟨Coefficients.renamed_empty, ⟨relabelled.coefficients, rfl⟩, relabelled.constant⟩

theorem relabelled_square {id : VarId} (id_in : scope id) (coefficient : K) :
    (square id coefficient).Relabelled relabelling scope
      (square (relabelling.ids id) coefficient) :=
  ⟨Coefficients.renamed_single ⟨id_in, id_in⟩ coefficient, LinearForm.relabelled_ofConstant 0, rfl⟩

theorem Relabelled.scale (relabelled : left.Relabelled relabelling scope leftRelabelled)
    (factor : K) :
    (left.scale factor).Relabelled relabelling scope (leftRelabelled.scale factor) :=
  ⟨relabelled.products.scale factor, relabelled.linear.scale factor,
    congrArg (· * factor) relabelled.constant⟩

theorem Relabelled.add (increases : relabelling.IncreasesOn scope)
    (fromLeft : left.Relabelled relabelling scope leftRelabelled)
    (fromRight : right.Relabelled relabelling scope rightRelabelled) :
    (left.add right).Relabelled relabelling scope (leftRelabelled.add rightRelabelled) :=
  ⟨fromLeft.products.add increases.keepsOrder_pairs fromRight.products,
    fromLeft.linear.add increases fromRight.linear,
    congrArg₂ (· + ·) fromLeft.constant fromRight.constant⟩

end QuadraticForm

namespace StandardForm.Relabelled

variable {left right leftRelabelled rightRelabelled : StandardForm K}

theorem toQuadratic (relabelled : left.Relabelled relabelling scope leftRelabelled) :
    left.toQuadratic.Relabelled relabelling scope leftRelabelled.toQuadratic := by
  cases relabelled with
  | linear forms => exact QuadraticForm.relabelled_ofLinear forms
  | quadratic forms => exact forms

theorem scale (relabelled : left.Relabelled relabelling scope leftRelabelled) (factor : K) :
    (left.scale factor).Relabelled relabelling scope (leftRelabelled.scale factor) := by
  cases relabelled with
  | linear forms => exact .linear (forms.scale factor)
  | quadratic forms => exact .quadratic (forms.scale factor)

theorem add (increases : relabelling.IncreasesOn scope)
    (fromLeft : left.Relabelled relabelling scope leftRelabelled)
    (fromRight : right.Relabelled relabelling scope rightRelabelled) :
    (left.add right).Relabelled relabelling scope (leftRelabelled.add rightRelabelled) := by
  cases fromLeft with
  | linear leftForms =>
      cases fromRight with
      | linear rightForms => exact .linear (leftForms.add increases rightForms)
      | quadratic rightForms =>
          exact .quadratic ((QuadraticForm.relabelled_ofLinear leftForms).add increases rightForms)
  | quadratic leftForms =>
      cases fromRight with
      | linear rightForms =>
          exact .quadratic (leftForms.add increases (QuadraticForm.relabelled_ofLinear rightForms))
      | quadratic rightForms => exact .quadratic (leftForms.add increases rightForms)

end StandardForm.Relabelled

namespace Canonical

variable {left right leftRelabelled rightRelabelled : Canonical K}

theorem Relabelled.scale (relabelled : left.Relabelled relabelling scope leftRelabelled)
    (factor : K) :
    (left.scale factor).Relabelled relabelling scope (leftRelabelled.scale factor) :=
  ⟨relabelled.form.scale factor, relabelled.cones⟩

theorem Relabelled.add (increases : relabelling.IncreasesOn scope)
    (fromLeft : left.Relabelled relabelling scope leftRelabelled)
    (fromRight : right.Relabelled relabelling scope rightRelabelled) :
    (left.add right).Relabelled relabelling scope (leftRelabelled.add rightRelabelled) :=
  fromLeft.extend (fromLeft.form.add increases fromRight.form) fromRight.cones _ _

section Nodes

variable {form relabelledForm bound relabelledBound : LinearForm K} {id : VarId}
  {auxiliaries relabelledAuxiliaries : List VarId}

theorem Relabelled.neg (inner : left.Relabelled relabelling scope leftRelabelled)
    (forms : form.Relabelled relabelling scope relabelledForm) :
    (left.extend (.linear form.neg) [] auxiliaries).Relabelled relabelling scope
      (leftRelabelled.extend (.linear relabelledForm.neg) [] relabelledAuxiliaries) :=
  inner.extend (.linear forms.neg) .nil _ _

theorem Relabelled.pos (increases : relabelling.IncreasesOn scope)
    (inner : left.Relabelled relabelling scope leftRelabelled)
    (forms : form.Relabelled relabelling scope relabelledForm)
    (bounds : bound.Relabelled relabelling scope relabelledBound) :
    (left.extend (.linear bound) [.nonneg bound, .nonneg (bound.add form.neg)]
        auxiliaries).Relabelled relabelling scope
      (leftRelabelled.extend (.linear relabelledBound)
        [.nonneg relabelledBound, .nonneg (relabelledBound.add relabelledForm.neg)]
        relabelledAuxiliaries) := by
  refine inner.extend (.linear bounds) (.cons (.nonneg bounds) (.cons (.nonneg ?_) .nil)) _ _
  exact bounds.add increases forms.neg

theorem Relabelled.squareVariable (inner : left.Relabelled relabelling scope leftRelabelled)
    (id_in : scope id) :
    (left.extend (.quadratic (.square id 1)) [] auxiliaries).Relabelled relabelling scope
      (leftRelabelled.extend (.quadratic (.square (relabelling.ids id) 1)) []
        relabelledAuxiliaries) :=
  inner.extend (.quadratic (QuadraticForm.relabelled_square id_in 1)) .nil _ _

theorem Relabelled.squareEqual (increases : relabelling.IncreasesOn scope)
    (inner : left.Relabelled relabelling scope leftRelabelled)
    (forms : form.Relabelled relabelling scope relabelledForm) (id_in : scope id) :
    (left.extend (.quadratic (.square id 1))
        [.zero ((LinearForm.ofVariable id).add form.neg)] auxiliaries).Relabelled relabelling scope
      (leftRelabelled.extend (.quadratic (.square (relabelling.ids id) 1))
        [.zero ((LinearForm.ofVariable (relabelling.ids id)).add relabelledForm.neg)]
        relabelledAuxiliaries) := by
  refine inner.extend (.quadratic (QuadraticForm.relabelled_square id_in 1))
    (.cons (.zero ?_) .nil) _ _
  exact (LinearForm.relabelled_ofVariable id_in).add increases forms.neg

theorem Relabelled.squareAbove (increases : relabelling.IncreasesOn scope)
    (inner : left.Relabelled relabelling scope leftRelabelled)
    (forms : form.Relabelled relabelling scope relabelledForm)
    (bounds : bound.Relabelled relabelling scope relabelledBound) :
    (left.extend (.linear bound)
        [.nonneg bound, .secondOrder (bound.add (.ofConstant 1))
          [form.scale Scalar.two, bound.add (.ofConstant (-1))]]
        auxiliaries).Relabelled relabelling scope
      (leftRelabelled.extend (.linear relabelledBound)
        [.nonneg relabelledBound, .secondOrder (relabelledBound.add (.ofConstant 1))
          [relabelledForm.scale Scalar.two, relabelledBound.add (.ofConstant (-1))]]
        relabelledAuxiliaries) := by
  have shifted (value : K) := bounds.add increases (LinearForm.relabelled_ofConstant value)
  have entries := List.Forall₂.cons (forms.scale Scalar.two) (.cons (shifted (-1)) .nil)
  exact inner.extend (.linear bounds)
    (.cons (.nonneg bounds) (.cons (.secondOrder (shifted 1) entries) .nil)) _ _

end Nodes

end Canonical

end Forms

namespace Relabelling

/-- Whatever is drawn from the supply `before` is in the scope, and is relabelled as what is drawn
at the same point from the supply `other`. -/
structure Carries (relabelling : Relabelling) (scope : VarId → Prop) (before other : Supply) :
    Prop where
  inScope : ∀ place, scope ⟨before.next + place⟩
  ids : ∀ place, relabelling.ids ⟨before.next + place⟩ = ⟨other.next + place⟩

variable {relabelling : Relabelling} {scope : VarId → Prop} {before other : Supply}

theorem Carries.draw (carries : relabelling.Carries scope before other) :
    scope before.draw.1 ∧ relabelling.ids before.draw.1 = other.draw.1 ∧
      relabelling.Carries scope before.draw.2 other.draw.2 := by
  refine ⟨carries.inScope 0, carries.ids 0, ?_⟩
  constructor
  case inScope =>
    intro place
    have later := carries.inScope (1 + place)
    rwa [← Nat.add_assoc] at later
  case ids =>
    intro place
    have later := carries.ids (1 + place)
    rwa [← Nat.add_assoc, ← Nat.add_assoc] at later

theorem Carries.drawn_in (carries : relabelling.Carries scope before other) (after : Supply) :
    ∀ id ∈ before.drawn after, scope id := by
  rintro ⟨index⟩ member
  have place_in := carries.inScope (index - before.next)
  rwa [Nat.add_sub_cancel' (Supply.mem_drawn.1 member).1] at place_in

/-- What is drawn from the one supply is relabelled, in order, as what is drawn from the other. -/
theorem Carries.map_drawn {after otherAfter : Supply}
    (carries : relabelling.Carries scope before other)
    (carriesOn : relabelling.Carries scope after otherAfter) (moves : before.next ≤ after.next) :
    (before.drawn after).map relabelling.ids = other.drawn otherAfter := by
  have first := carriesOn.ids 0
  have last := carries.ids (after.next - before.next)
  rw [Nat.add_zero, Nat.add_zero] at first
  rw [Nat.add_sub_cancel' moves, first, VarId.mk.injEq] at last
  have count : otherAfter.next - other.next = after.next - before.next := by omega
  rw [Supply.drawn, Supply.drawn, count, List.range'_eq_map_range, List.range'_eq_map_range,
    List.map_map, List.map_map, List.map_map]
  exact List.map_congr_left fun place _ => carries.ids place

end Relabelling

namespace Canonicalizes

variable {K : Type} [Scalar K] {relabelling : Relabelling} {scope : VarId → Prop}

/-- The variables that are drawn next correspond. -/
theorem relabelled_bound {before other : Supply}
    (carries : relabelling.Carries scope before other) :
    (LinearForm.ofVariable before.draw.1 : LinearForm K).Relabelled relabelling scope
      (LinearForm.ofVariable other.draw.1) := by
  rcases carries.draw with ⟨inScope, sameDraw, -⟩
  rw [← sameDraw]
  exact LinearForm.relabelled_ofVariable inScope

/-- A relabelled expression has the relabelled canonical form, whatever number its supply is at. -/
theorem relabel {allowed : Bool} {before after other : Supply} {expression : Expression K}
    {result : Canonical K} (derivation : Canonicalizes allowed before expression result after)
    (increases : relabelling.IncreasesOn scope) (occur : ∀ id ∈ expression.occurrences, scope id)
    (carries : relabelling.Carries scope before other) :
    ∃ relabelled otherAfter,
      Canonicalizes allowed other (expression.relabel relabelling) relabelled otherAfter ∧
        result.Relabelled relabelling scope relabelled ∧
          relabelling.Carries scope after otherAfter := by
  induction derivation generalizing other with
  | var leaf =>
      have leaf_in := occur leaf.id (by simp [Expression.occurrences])
      exact ⟨_, _, .var _,
        Canonical.relabelled_ofLinear (LinearForm.relabelled_ofVariable leaf_in), carries⟩
  | const value =>
      exact ⟨_, _, .const value,
        Canonical.relabelled_ofLinear (LinearForm.relabelled_ofConstant value), carries⟩
  | add _ _ ihLeft ihRight =>
      simp only [Expression.occurrences, List.forall_mem_append] at occur
      rcases ihLeft occur.1 carries with ⟨left, middle, fromLeft, leftSame, carriesOn⟩
      rcases ihRight occur.2 carriesOn with ⟨right, otherAfter, fromRight, rightSame, carriesAll⟩
      exact ⟨_, _, .add fromLeft fromRight, leftSame.add increases rightSame, carriesAll⟩
  | neg _ linear ih =>
      rcases ih occur carries with ⟨inner, otherAfter, fromBody, same, carriesOn⟩
      rcases same.exists_linear linear with ⟨form, formLinear, formSame⟩
      exact ⟨_, _, .neg fromBody formLinear, same.neg formSame, carriesOn⟩
  | mulLeft factor _ ih =>
      rcases ih (by simpa [Expression.occurrences] using occur) carries with
        ⟨inner, otherAfter, fromRight, same, carriesOn⟩
      exact ⟨_, _, .mulLeft factor fromRight, same.scale factor, carriesOn⟩
  | mulRight factor notLiteral _ ih =>
      rcases ih (by simpa [Expression.occurrences] using occur) carries with
        ⟨inner, otherAfter, fromLeft, same, carriesOn⟩
      refine ⟨_, _, .mulRight factor ?_ fromLeft, same.scale factor, carriesOn⟩
      rwa [Expression.constant?_relabel]
  | sumNil =>
      exact ⟨_, _, .sumNil,
        Canonical.relabelled_ofLinear (LinearForm.relabelled_ofConstant 0), carries⟩
  | sumSnoc _ _ ihTerms ihTerm =>
      simp only [Expression.occurrences_sum_snoc, List.forall_mem_append] at occur
      rcases ihTerms occur.1 carries with ⟨left, middle, fromTerms, termsSame, carriesOn⟩
      rcases ihTerm occur.2 carriesOn with ⟨right, otherAfter, fromTerm, termSame, carriesAll⟩
      rw [Expression.relabel_sum] at fromTerms ⊢
      rw [List.map_append]
      exact ⟨_, _, .sumSnoc fromTerms fromTerm, termsSame.add increases termSame, carriesAll⟩
  | pos _ linear ih =>
      rcases ih occur carries with ⟨inner, otherAfter, fromBody, same, carriesOn⟩
      rcases same.exists_linear linear with ⟨form, formLinear, formSame⟩
      exact ⟨_, _, .pos fromBody formLinear,
        same.pos increases formSame (relabelled_bound carriesOn), carriesOn.draw.2.2⟩
  | squareVariable _ linear single ih =>
      rcases ih occur carries with ⟨inner, otherAfter, fromBody, same, carriesOn⟩
      rcases same.exists_linear linear with ⟨form, formLinear, formSame⟩
      have stillSingle := formSame.singleVariable?
      rw [single, Option.map_some] at stillSingle
      exact ⟨_, _, .squareVariable fromBody formLinear stillSingle,
        same.squareVariable (formSame.singleVariable_in single), carriesOn⟩
  | squareEqual _ linear notSingle ih =>
      rcases ih occur carries with ⟨inner, otherAfter, fromBody, same, carriesOn⟩
      rcases same.exists_linear linear with ⟨form, formLinear, formSame⟩
      have stillNot := formSame.singleVariable?
      rw [notSingle, Option.map_none] at stillNot
      refine ⟨_, _, .squareEqual fromBody formLinear stillNot, ?_, carriesOn.draw.2.2⟩
      rw [← carriesOn.draw.2.1]
      exact same.squareEqual increases formSame carriesOn.draw.1
  | squareAbove _ linear ih =>
      rcases ih occur carries with ⟨inner, otherAfter, fromBody, same, carriesOn⟩
      rcases same.exists_linear linear with ⟨form, formLinear, formSame⟩
      exact ⟨_, _, .squareAbove fromBody formLinear,
        same.squareAbove increases formSame (relabelled_bound carriesOn), carriesOn.draw.2.2⟩

end Canonicalizes

end HingeLoss
