import Clausal.Interpretation

/-! # Search states

A search state is the clause set that is left to satisfy, together with the values chosen so
far.  Assuming a literal restricts the set and records the value.  Two simplifications make
assumptions that cost no choice: unit propagation and the elimination of pure literals. -/

namespace Clausal.Dpll

/-- What is left to satisfy, and the values chosen so far. -/
structure State where
  set : ClauseSet
  assigned : Interpretation
deriving DecidableEq

namespace State

/-- The state in which nothing is chosen. -/
def initial (s : ClauseSet) : State := ⟨s, Interpretation.empty⟩

/-- The state after a literal is assumed. -/
def assume (st : State) (l : Literal) : State := ⟨st.set.restrict l, st.assigned.assume l⟩

/-- The state after several literals are assumed in turn. -/
def assumeAll (st : State) (ls : List Literal) : State := ls.foldl assume st

/-! ### Unit propagation -/

/-- Assumes the literals of a list that do not hold already, until a clause is falsified, and
counts the assumptions. -/
def propagateRound : List Literal → State → State × Nat
  | [], st => (st, 0)
  | l :: ls, st =>
    if st.set.hasEmptyClause then (st, 0)
    else if st.assigned.get? l.atom = some l.asserted then propagateRound ls st
    else
      let next := propagateRound ls (st.assume l)
      (next.1, next.2 + 1)

/-- Assumes the unit literals, round after round, until none is left; there is no state if a
clause is falsified.  The assumptions are counted.  A round that leaves the set as heavy as it
was ends the propagation; no round does if the set has no atom with a value. -/
def propagate (st : State) : Option State × Nat :=
  if st.set.units.isEmpty then (some st, 0)
  else
    let next := propagateRound st.set.units st
    if next.1.set.hasEmptyClause then (none, next.2)
    else if next.1.set.weight < st.set.weight then
      let rest := next.1.propagate
      (rest.1, next.2 + rest.2)
    else (some next.1, next.2)
termination_by st.set.weight

/-! ### Assumptions shrink the set -/

theorem weight_assume_le (st : State) (l : Literal) :
    (st.assume l).set.weight ≤ st.set.weight :=
  ClauseSet.weight_restrict_le st.set l

theorem weight_assumeAll_le (st : State) (ls : List Literal) :
    (st.assumeAll ls).set.weight ≤ st.set.weight := by
  induction ls generalizing st with
  | nil => exact Nat.le_refl _
  | cons l ls ih => exact Nat.le_trans (ih (st.assume l)) (st.weight_assume_le l)

theorem weight_propagateRound_le (ls : List Literal) (st : State) :
    (propagateRound ls st).1.set.weight ≤ st.set.weight := by
  fun_induction propagateRound ls st with
  | case1 => exact Nat.le_refl _
  | case2 => exact Nat.le_refl _
  | case3 _ _ _ _ _ ih => exact ih
  | case4 l _ st _ _ _ ih => exact Nat.le_trans ih (st.weight_assume_le l)

theorem weight_propagate_le {st st' : State} (h : st.propagate.1 = some st') :
    st'.set.weight ≤ st.set.weight := by
  fun_induction propagate st with
  | case1 =>
    cases h
    exact Nat.le_refl _
  | case2 => cases h
  | case3 _ _ _ _ hlt _ ih => exact Nat.le_trans (ih h) (Nat.le_of_lt hlt)
  | case4 st =>
    cases h
    exact weight_propagateRound_le _ st

end State
end Clausal.Dpll
