import Clausal.Dpll.State

/-! # The search of Davis, Putnam, Logemann and Loveland

A run simplifies its state and then branches on the first literal of the first clause: it
assumes the literal, and after a failure its opposite.  A set of consistent unit clauses is a
model as it stands.  Every run counts its decisions, its unit propagations, the pure literals it
assumed and its conflicts. -/

namespace Clausal.Dpll

/-- The work of a run. -/
structure Stats where
  decisions : Nat
  propagations : Nat
  pureLiterals : Nat
  conflicts : Nat
deriving DecidableEq

namespace Stats

/-- No work. -/
def zero : Stats := ⟨0, 0, 0, 0⟩

/-- A single decision. -/
def decision : Stats := ⟨1, 0, 0, 0⟩

/-- A single conflict. -/
def conflict : Stats := ⟨0, 0, 0, 1⟩

instance : Add Stats :=
  ⟨fun a b => ⟨a.decisions + b.decisions, a.propagations + b.propagations,
    a.pureLiterals + b.pureLiterals, a.conflicts + b.conflicts⟩⟩

end Stats

/-- The result of a run: a model or nothing, and the work it took. -/
structure Result where
  model : Option Interpretation
  stats : Stats
deriving DecidableEq

namespace State

/-- Assumes the pure literals of the set. -/
def assumePure (st : State) : State := st.assumeAll st.set.pureLiterals

/-- The state after unit propagation and the elimination of pure literals, or nothing after a
conflict, and the work this took. -/
def simplify (st : State) : Option State × Stats :=
  match st.propagate with
  | (none, count) => (none, ⟨0, count, 0, 1⟩)
  | (some st', count) => (some st'.assumePure, ⟨0, count, st'.set.pureLiterals.length, 0⟩)

theorem weight_simplify_le {st st' : State} (h : st.simplify.1 = some st') :
    st'.set.weight ≤ st.set.weight := by
  unfold simplify at h
  split at h
  · cases h
  · next mid _ hmid =>
    cases h
    exact Nat.le_trans (mid.weight_assumeAll_le _) (weight_propagate_le (by rw [hmid]))

/-- Searches for a model that extends the values chosen so far. -/
def run (st : State) : Result :=
  if st.set.hasEmptyClause then ⟨none, Stats.conflict⟩
  else
    match st.set.consistentUnits? with
    | some ls => ⟨some (st.assigned.assumeAll ls), Stats.zero⟩
    | none =>
      match _hsimple : st.simplify with
      | (none, work) => ⟨none, work⟩
      | (some simple, work) =>
        match _hfirst : simple.set.first? with
        | none => ⟨some simple.assigned, work⟩
        | some l =>
          let left := (simple.assume l).run
          match left.model with
          | some i => ⟨some i, work + Stats.decision + left.stats⟩
          | none =>
            let right := (simple.assume l.neg).run
            ⟨right.model, work + Stats.decision + left.stats + right.stats⟩
termination_by st.set.weight
decreasing_by
  · exact Nat.lt_of_lt_of_le
      (ClauseSet.weight_restrict_lt (ClauseSet.mem_literals_of_first? _hfirst) rfl)
      (weight_simplify_le (by rw [_hsimple]))
  · exact Nat.lt_of_lt_of_le
      (ClauseSet.weight_restrict_lt (ClauseSet.mem_literals_of_first? _hfirst) rfl)
      (weight_simplify_le (by rw [_hsimple]))

end State

/-- Decides a clause set.  A model lists all its atoms, those that the search left open as
false. -/
def solve (s : ClauseSet) : Result :=
  let result := (State.initial s).run
  ⟨result.model.map (·.totalOn s.atoms), result.stats⟩

end Clausal.Dpll
