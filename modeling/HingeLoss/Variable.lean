/-!
# Variables

Decision variables are told apart by numbers drawn from a supply that never repeats one. The names
are for people: two variables of one name are different variables.
-/

namespace HingeLoss

/-- The number that identifies a variable. -/
structure VarId where
  index : Nat
deriving DecidableEq, Repr

namespace VarId

instance : Ord VarId := ⟨compareOn VarId.index⟩

instance : Std.TransOrd VarId :=
  inferInstanceAs (Std.TransCmp (compareOn VarId.index))

instance : Std.LawfulEqOrd VarId where
  compare_self := Nat.compare_eq_eq.2 rfl
  eq_of_compare {left right} equal := by
    have same : left.index = right.index := Nat.compare_eq_eq.1 equal
    cases left
    cases right
    simp_all

instance : Ord (VarId × VarId) := lexOrd

instance : Std.TransOrd (VarId × VarId) :=
  inferInstanceAs (Std.TransCmp (compareLex (compareOn Prod.fst) (compareOn Prod.snd)))

instance : Std.LawfulEqOrd (VarId × VarId) where
  compare_self {pair} := by
    change compareLex (compareOn Prod.fst) (compareOn Prod.snd) pair pair = .eq
    simp [compareLex, compareOn]
  eq_of_compare {left right} equal := by
    change compareLex (compareOn Prod.fst) (compareOn Prod.snd) left right = .eq at equal
    simp only [compareLex, compareOn, Ordering.then_eq_eq] at equal
    exact Prod.ext (Std.LawfulEqOrd.eq_of_compare equal.1)
      (Std.LawfulEqOrd.eq_of_compare equal.2)

/-- Puts a number at its place in a strictly increasing list, which keeps it as it is if it is
there already. -/
def insertSorted (id : VarId) : List VarId → List VarId
  | [] => [id]
  | head :: rest =>
      match compare id head with
      | .lt => id :: head :: rest
      | .eq => head :: rest
      | .gt => head :: insertSorted id rest

/-- The numbers of a list in increasing order, without repetitions. -/
def sortedDistinct (ids : List VarId) : List VarId :=
  ids.foldr insertSorted []

end VarId

/-- A decision variable as it stands in expressions. -/
structure Variable where
  id : VarId
  name : Option String
  /-- Whether the variable is known to be nonnegative. This only informs the sign analysis; the
  bound itself is a constraint of its own. -/
  nonneg : Bool
deriving DecidableEq, Repr

/-- The numbers that have not been given to a variable yet: `next` and all above. There is no
largest one, so a supply stands for a counter of 64 bits as long as fewer than 2^64 numbers are
drawn. -/
structure Supply where
  next : Nat
deriving DecidableEq, Repr

namespace Supply

/-- A supply from which nothing has been drawn. -/
def full : Supply := ⟨0⟩

/-- Takes the next number out of the supply. -/
def draw (supply : Supply) : VarId × Supply :=
  (⟨supply.next⟩, ⟨supply.next + 1⟩)

end Supply

/-- Draws a number inside of steps that carry a supply. -/
def freshId {m : Type → Type} [Monad m] [MonadStateOf Supply m] : m VarId :=
  modifyGet Supply.draw

end HingeLoss
