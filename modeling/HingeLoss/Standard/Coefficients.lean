import HingeLoss.Scalar

/-!
# Coefficient maps

A finite map from keys to coefficients whose entries are kept in increasing order of their keys.
The order is part of the type, so two maps with the same entries are equal, and everything that is
produced from a map comes out in one order.
-/

namespace HingeLoss

/-- Each key is below all keys that come after it, so that none is repeated. -/
def KeysIncrease {κ K : Type} [Ord κ] (entries : List (κ × K)) : Prop :=
  entries.Pairwise fun left right => compare left.1 right.1 = .lt

/-- Coefficients for finitely many keys. -/
structure Coefficients (κ K : Type) [Ord κ] where
  entries : List (κ × K)
  increasing : KeysIncrease entries

namespace Coefficients

variable {κ K : Type} [Ord κ]

/-- Replaces the coefficient of a key by `update` of what it was, in entries that increase. -/
def updateEntries (key : κ) (update : Option K → K) : List (κ × K) → List (κ × K)
  | [] => [(key, update none)]
  | (head, coefficient) :: rest =>
      match compare key head with
      | .lt => (key, update none) :: (head, coefficient) :: rest
      | .eq => (head, update (some coefficient)) :: rest
      | .gt => (head, coefficient) :: updateEntries key update rest

theorem mem_updateEntries {key : κ} {update : Option K → K} {entries : List (κ × K)}
    {entry : κ × K} (member : entry ∈ updateEntries key update entries) :
    entry.1 = key ∨ ∃ old ∈ entries, old.1 = entry.1 := by
  induction entries with
  | nil => simp_all [updateEntries]
  | cons head rest ih =>
      obtain ⟨headKey, coefficient⟩ := head
      simp only [updateEntries] at member
      split at member
      · simp only [List.mem_cons] at member
        rcases member with rfl | rfl | member
        · exact .inl rfl
        · exact .inr ⟨_, List.mem_cons_self, rfl⟩
        · exact .inr ⟨entry, List.mem_cons_of_mem _ member, rfl⟩
      · simp only [List.mem_cons] at member
        rcases member with rfl | member
        · exact .inr ⟨_, List.mem_cons_self, rfl⟩
        · exact .inr ⟨entry, List.mem_cons_of_mem _ member, rfl⟩
      · simp only [List.mem_cons] at member
        rcases member with rfl | member
        · exact .inr ⟨_, List.mem_cons_self, rfl⟩
        · rcases ih member with equal | ⟨old, old_mem, equal⟩
          · exact .inl equal
          · exact .inr ⟨old, List.mem_cons_of_mem _ old_mem, equal⟩

theorem keysIncrease_updateEntries [Std.TransOrd κ] [Std.LawfulEqOrd κ] (key : κ)
    (update : Option K → K) {entries : List (κ × K)} (increasing : KeysIncrease entries) :
    KeysIncrease (updateEntries key update entries) := by
  unfold KeysIncrease at *
  induction entries with
  | nil => simp [updateEntries]
  | cons head rest ih =>
      obtain ⟨headKey, coefficient⟩ := head
      obtain ⟨headBefore, restIncrease⟩ := List.pairwise_cons.1 increasing
      simp only [updateEntries]
      split
      case h_1 before =>
        refine List.pairwise_cons.2 ⟨?_, increasing⟩
        intro entry member
        rcases List.mem_cons.1 member with rfl | member
        · exact before
        · exact Std.TransCmp.lt_trans before (headBefore entry member)
      case h_2 equal =>
        exact List.pairwise_cons.2 ⟨headBefore, restIncrease⟩
      case h_3 after =>
        refine List.pairwise_cons.2 ⟨?_, ih restIncrease⟩
        intro entry member
        rcases mem_updateEntries member with equal | ⟨old, old_mem, equal⟩
        · rw [equal]
          exact Std.OrientedCmp.gt_iff_lt.1 after
        · rw [← equal]
          exact headBefore old old_mem

def empty : Coefficients κ K := ⟨[], List.Pairwise.nil⟩

def single (key : κ) (coefficient : K) : Coefficients κ K :=
  ⟨[(key, coefficient)], List.pairwise_singleton _ _⟩

/-- No key has a coefficient, not even the coefficient zero. -/
def isEmpty (coefficients : Coefficients κ K) : Bool := coefficients.entries.isEmpty

/-- The keys, in increasing order. -/
def keys (coefficients : Coefficients κ K) : List κ := coefficients.entries.map Prod.fst

/-- The coefficient of a key, if it has one. -/
def get? [DecidableEq κ] (coefficients : Coefficients κ K) (key : κ) : Option K :=
  coefficients.entries.lookup key

/-- Changes every coefficient under its key. -/
def map {L : Type} (change : K → L) (coefficients : Coefficients κ K) : Coefficients κ L where
  entries := coefficients.entries.map fun (key, coefficient) => (key, change coefficient)
  increasing := by
    have := coefficients.increasing
    unfold KeysIncrease at *
    exact List.pairwise_map.2 this

variable [Std.TransOrd κ] [Std.LawfulEqOrd κ]

/-- Gives a key a coefficient, in the place of the one that it may have. -/
def set (coefficients : Coefficients κ K) (key : κ) (coefficient : K) : Coefficients κ K :=
  ⟨updateEntries key (fun _ => coefficient) coefficients.entries,
    keysIncrease_updateEntries _ _ coefficients.increasing⟩

variable [Scalar K]

/-- Adds to the coefficient of a key, which counts as zero if it has none. -/
def addAt (coefficients : Coefficients κ K) (key : κ) (coefficient : K) : Coefficients κ K :=
  ⟨updateEntries key (fun old => old.getD 0 + coefficient) coefficients.entries,
    keysIncrease_updateEntries _ _ coefficients.increasing⟩

/-- Adds the entries of the right map to the left one. -/
def add (left right : Coefficients κ K) : Coefficients κ K :=
  right.entries.foldl (fun sum (key, coefficient) => sum.addAt key coefficient) left

/-- Multiplies every coefficient. Those that become zero are kept. -/
def scale (coefficients : Coefficients κ K) (factor : K) : Coefficients κ K :=
  coefficients.map (· * factor)

end Coefficients

end HingeLoss
