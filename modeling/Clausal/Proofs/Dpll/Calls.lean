import Mathlib
import Clausal.Proofs.Dpll.Outcome
import Clausal.Proofs.Dpll.Propagation
import Clausal.Proofs.Dpll.PureLiterals

/-! # The calls of a search

A run calls itself on the branches of its decision.  `Calls depth st calls` lists all calls that a
run consists of, each with its depth and its state, and a conflict is counted for each call that
ends in one (`Calls.conflicts_run`).

Unit propagation leaves neither an empty nor a unit clause behind, and the elimination of pure
literals only drops clauses; so each clause has two literals at least when a run decides on one
(`BranchesOn.two_le_width`), and the decision removes at most one of them
(`BranchesOn.hasEmptyClause_assume`).  Hence only the first call of a search can start from a
falsified clause, and in all others it is unit propagation that falsifies one
(`decisions_do_not_conflict`). -/

namespace Clausal.Dpll

/-- A call of the search. -/
structure Call where
  depth : ℕ
  state : State

namespace State

variable {st simple : State} {l : Literal} {depth : ℕ} {calls : List Call}

/-- A run on the state comes to its decision: it has simplified the state and branches on a
literal. -/
structure BranchesOn (st simple : State) (l : Literal) : Prop where
  hasEmptyClause : st.set.hasEmptyClause = false
  consistentUnits? : st.set.consistentUnits? = none
  simplify : st.simplify.1 = some simple
  first? : simple.set.first? = some l

/-- The calls of a run at some depth, in the order in which they are made: its own, those of its
first branch, and if this fails those of its second branch. -/
inductive Calls : ℕ → State → List Call → Prop
  | leaf {depth : ℕ} {st : State} (hleaf : ∀ simple l, ¬ st.BranchesOn simple l) :
      Calls depth st [⟨depth, st⟩]
  | first {depth : ℕ} {st simple : State} {l : Literal} {i : Interpretation} {left : List Call}
      (hbranch : st.BranchesOn simple l) (hmodel : (simple.assume l).run.model = some i)
      (hleft : Calls (depth + 1) (simple.assume l) left) : Calls depth st (⟨depth, st⟩ :: left)
  | both {depth : ℕ} {st simple : State} {l : Literal} {left right : List Call}
      (hbranch : st.BranchesOn simple l) (hfailed : (simple.assume l).run.model = none)
      (hleft : Calls (depth + 1) (simple.assume l) left)
      (hright : Calls (depth + 1) (simple.assume l.neg) right) :
      Calls depth st (⟨depth, st⟩ :: (left ++ right))

/-- Unit propagation is reached and falsifies a clause. -/
def FailsInPropagation (st : State) : Prop :=
  st.set.hasEmptyClause = false ∧ st.set.consistentUnits? = none ∧ st.propagate.1 = none

instance (st : State) : Decidable st.FailsInPropagation :=
  inferInstanceAs (Decidable (_ ∧ _ ∧ _))

/-- The call on the state is a conflict itself: at its entry or in its unit propagation. -/
def Conflicts (st : State) : Prop := st.set.hasEmptyClause = true ∨ st.FailsInPropagation

instance (st : State) : Decidable st.Conflicts := inferInstanceAs (Decidable (_ ∨ _))

/-! ### Decisions -/

namespace BranchesOn

/-- At a decision nothing is left but clauses with two literals at least. -/
theorem two_le_width (h : st.BranchesOn simple l) (hsep : st.Separate) :
    ∀ c ∈ simple.set.clauses, 2 ≤ c.width := by
  have hempty := hasEmptyClause_simplify h.hasEmptyClause h.simplify
  have hsimplify := h.simplify
  rw [simplify_fst, Option.map_eq_some_iff] at hsimplify
  obtain ⟨mid, hmid, rfl⟩ := hsimplify
  obtain ⟨_, hsettles, -⟩ := (propagate_settles hsep h.hasEmptyClause).2 mid hmid
  have hunits : mid.assumePure.set.units = [] := by
    rw [units_assumePure, hsettles.units, List.filter_nil]
  exact ClauseSet.two_le_width hempty hunits

/-- No choice at a decision falsifies a clause. -/
theorem hasEmptyClause_assume (h : st.BranchesOn simple l) (hsep : st.Separate) (m : Literal) :
    (simple.assume m).set.hasEmptyClause = false :=
  ClauseSet.hasEmptyClause_restrict_of_two_le (h.two_le_width hsep) m

theorem separate_assume (h : st.BranchesOn simple l) (hsep : st.Separate) (m : Literal) :
    (simple.assume m).Separate :=
  (hsep.simplify h.simplify).assume m

theorem run_eq (h : st.BranchesOn simple l) : st.run = simple.branch st.simplify.2 := by
  obtain ⟨hempty, hunits, hsimplify, -⟩ := h
  rw [State.run_eq hempty hunits]
  split
  · next hnone =>
    rw [hnone] at hsimplify
    cases hsimplify
  · next hsome =>
    rw [hsome] at hsimplify
    cases hsimplify
    rw [hsome]

theorem isStraight (h : st.BranchesOn simple l) : st.simplify.2.IsStraight :=
  stats_of_simplify_some (Prod.ext h.simplify rfl)

/-- A run that comes to its decision is no conflict itself. -/
theorem not_conflicts (h : st.BranchesOn simple l) : ¬ st.Conflicts := by
  rintro (hempty | ⟨-, -, hnone⟩)
  · rw [h.hasEmptyClause] at hempty
    cases hempty
  · have hsimplify := h.simplify
    rw [simplify_fst, hnone] at hsimplify
    cases hsimplify

end BranchesOn

/-! ### Calls -/

theorem exists_calls (depth : ℕ) (st : State) : ∃ calls, Calls depth st calls := by
  fun_induction run st generalizing depth with
  | case1 st hempty =>
    refine ⟨_, .leaf fun simple l hbranch => ?_⟩
    rw [hbranch.hasEmptyClause] at hempty
    cases hempty
  | case2 st _ ls hunits =>
    refine ⟨_, .leaf fun simple l hbranch => ?_⟩
    rw [hbranch.consistentUnits?] at hunits
    cases hunits
  | case3 st _ _ work hsimple =>
    refine ⟨_, .leaf fun simple l hbranch => ?_⟩
    have hsimplify := hbranch.simplify
    rw [hsimple] at hsimplify
    cases hsimplify
  | case4 st _ _ simple work hsimple hfirst =>
    refine ⟨_, .leaf fun simple' l hbranch => ?_⟩
    have hsimplify := hbranch.simplify
    rw [hsimple] at hsimplify
    cases hsimplify
    have hl := hbranch.first?
    rw [hfirst] at hl
    cases hl
  | case5 st hempty hunits simple work hsimple l hfirst left i hleft ih =>
    have hbranch : st.BranchesOn simple l :=
      ⟨Bool.eq_false_iff.mpr hempty, hunits, congrArg Prod.fst hsimple, hfirst⟩
    obtain ⟨calls, hcalls⟩ := ih (depth + 1)
    exact ⟨_, .first hbranch hleft hcalls⟩
  | case6 st hempty hunits simple work hsimple l hfirst left hleft right ihLeft ihRight =>
    have hbranch : st.BranchesOn simple l :=
      ⟨Bool.eq_false_iff.mpr hempty, hunits, congrArg Prod.fst hsimple, hfirst⟩
    obtain ⟨calls, hcalls⟩ := ihLeft (depth + 1)
    obtain ⟨calls', hcalls'⟩ := ihRight (depth + 1)
    exact ⟨_, .both hbranch hleft hcalls hcalls'⟩

/-- A run that does not come to a decision counts a conflict if it is one. -/
theorem conflicts_run_of_leaf (hleaf : ∀ simple l, ¬ st.BranchesOn simple l) :
    st.run.stats.conflicts = if st.Conflicts then 1 else 0 := by
  by_cases hempty : st.set.hasEmptyClause = true
  · rw [run, if_pos hempty, if_pos (.inl hempty)]
    rfl
  have hempty := Bool.eq_false_iff.mpr hempty
  cases hunits : st.set.consistentUnits? with
  | some ls =>
    have hnot : ¬ st.Conflicts := by simp [Conflicts, FailsInPropagation, hempty, hunits]
    rw [run, if_neg (Bool.eq_false_iff.mp hempty), hunits, if_neg hnot]
    rfl
  | none =>
    rw [State.run_eq hempty hunits]
    split
    · next work hnone =>
      have hpropagate : st.propagate.1 = none := by
        have hfst := congrArg Prod.fst hnone
        rwa [simplify_fst, Option.map_eq_none_iff] at hfst
      rw [if_pos (.inr ⟨hempty, hunits, hpropagate⟩)]
      exact (stats_of_simplify_none hnone).2
    · next simple work hsome =>
      have hfst := congrArg Prod.fst hsome
      have hpropagate : st.propagate.1 ≠ none := by
        intro hnone
        rw [simplify_fst, hnone] at hfst
        cases hfst
      have hnot : ¬ st.Conflicts := by simp [Conflicts, FailsInPropagation, hempty, hpropagate]
      rw [if_neg hnot, branch]
      cases hfirst : simple.set.first? with
      | none => exact (stats_of_simplify_some hsome).2
      | some l => exact absurd ⟨hempty, hunits, hfst, hfirst⟩ (hleaf simple l)

namespace Calls

/-- A run counts a conflict for each of its calls that is one. -/
theorem conflicts_run (h : Calls depth st calls) :
    st.run.stats.conflicts = calls.countP (·.state.Conflicts) := by
  induction h with
  | leaf hleaf =>
    rw [conflicts_run_of_leaf hleaf, List.countP_singleton]
    simp only [decide_eq_true_eq]
  | first hbranch hmodel _ ih =>
    rw [hbranch.run_eq, List.countP_cons_of_neg (by simpa using hbranch.not_conflicts), ← ih]
    simp [branch, hbranch.first?, hmodel, hbranch.isStraight.2, Stats.decision]
  | both hbranch hfailed _ _ ihLeft ihRight =>
    rw [hbranch.run_eq, List.countP_cons_of_neg (by simpa using hbranch.not_conflicts),
      List.countP_append, ← ihLeft, ← ihRight]
    simp [branch, hbranch.first?, hfailed, hbranch.isStraight.2, Stats.decision]

/-- The first call is that of the run itself, and no other starts from a falsified clause. -/
theorem exists_cons (h : Calls depth st calls) (hsep : st.Separate) :
    ∃ rest, calls = ⟨depth, st⟩ :: rest ∧
      ∀ call ∈ rest, call.state.Separate ∧ call.state.set.hasEmptyClause = false := by
  induction h with
  | leaf => exact ⟨[], rfl, List.forall_mem_nil _⟩
  | @first depth st simple l i left hbranch _ _ ih =>
    have hsep' := hbranch.separate_assume hsep l
    obtain ⟨rest, rfl, hrest⟩ := ih hsep'
    have hempty := hbranch.hasEmptyClause_assume hsep l
    exact ⟨_, rfl, List.forall_mem_cons.mpr ⟨⟨hsep', hempty⟩, hrest⟩⟩
  | @both depth st simple l left right hbranch _ _ _ ihLeft ihRight =>
    have hsep' := hbranch.separate_assume hsep
    obtain ⟨rest, rfl, hrest⟩ := ihLeft (hsep' l)
    obtain ⟨rest', rfl, hrest'⟩ := ihRight (hsep' l.neg)
    have hempty := hbranch.hasEmptyClause_assume hsep
    exact ⟨_, rfl, List.forall_mem_append.mpr
      ⟨List.forall_mem_cons.mpr ⟨⟨hsep' l, hempty l⟩, hrest⟩,
        List.forall_mem_cons.mpr ⟨⟨hsep' l.neg, hempty l.neg⟩, hrest'⟩⟩⟩

end Calls

end State

/-- Whenever a run decides on a literal, each clause that is left has two literals at least, and
neither choice falsifies one.  So among the calls of a search only the first, at depth zero, can
start from a falsified clause: the conflicts that the search counts at other depths are calls in
which unit propagation falsifies a clause. -/
theorem decisions_do_not_conflict (s : ClauseSet) :
    (∃ calls, State.Calls 0 (.initial s) calls) ∧
    ∀ calls, State.Calls 0 (.initial s) calls →
      (solve s).stats.conflicts = calls.countP (·.state.Conflicts) ∧
      ∀ call ∈ calls,
        (∀ simple l, call.state.BranchesOn simple l →
          (∀ c ∈ simple.set.clauses, 2 ≤ c.width) ∧
          (simple.assume l).set.hasEmptyClause = false ∧
          (simple.assume l.neg).set.hasEmptyClause = false) ∧
        (call.state.set.hasEmptyClause = true → call.depth = 0) ∧
        (call.state.Conflicts → 0 < call.depth → call.state.FailsInPropagation) := by
  refine ⟨State.exists_calls 0 (.initial s), fun calls hcalls => ⟨hcalls.conflicts_run, ?_⟩⟩
  intro call hcall
  obtain ⟨rest, rfl, hrest⟩ := hcalls.exists_cons (State.separate_initial s)
  have hentry : call.state.Separate ∧ (call.state.set.hasEmptyClause = true → call.depth = 0) := by
    rcases List.mem_cons.mp hcall with rfl | hcall
    · exact ⟨State.separate_initial s, fun _ => rfl⟩
    · obtain ⟨hsep, hempty⟩ := hrest call hcall
      exact ⟨hsep, fun hfalse => absurd hfalse (Bool.eq_false_iff.mp hempty)⟩
  obtain ⟨hsep, hdepth⟩ := hentry
  refine ⟨fun simple l hbranch => ?_, hdepth, ?_⟩
  · have hempty := hbranch.hasEmptyClause_assume hsep
    exact ⟨hbranch.two_le_width hsep, hempty l, hempty l.neg⟩
  · rintro (hempty | hfails) hpos
    · exact absurd (hdepth hempty) hpos.ne'
    · exact hfails

end Clausal.Dpll
