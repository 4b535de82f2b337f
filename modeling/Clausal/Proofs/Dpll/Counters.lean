import Mathlib
import Clausal.Dpll

/-! # The counters of a search

A search without a result is a binary tree: each decision has two branches, and each branch ends in
decisions of its own or in a conflict, so there is one conflict more than decisions.  A search that
finds a model leaves out the branches behind it, and then there are at most as many conflicts as
decisions (`solve_conflicts`). -/

namespace Clausal.Dpll

namespace Stats

variable (a b : Stats)

@[simp]
theorem decisions_add : (a + b).decisions = a.decisions + b.decisions := rfl

@[simp]
theorem conflicts_add : (a + b).conflicts = a.conflicts + b.conflicts := rfl

/-- Work that took neither a decision nor a conflict. -/
def IsStraight : Prop := a.decisions = 0 ∧ a.conflicts = 0

end Stats

namespace Result

/-- The counters are those of a binary tree: the decisions are its inner nodes and the conflicts its
leaves, and a model stands in the place of at least one leaf. -/
structure CountsTree (r : Result) : Prop where
  of_none : r.model = none → r.stats.conflicts = r.stats.decisions + 1
  of_some : ∀ i, r.model = some i → r.stats.conflicts ≤ r.stats.decisions

variable {work : Stats} {left right : Result} {i : Interpretation}

/-- A leaf that is closed by a conflict. -/
theorem countsTree_conflict (hdecisions : work.decisions = 0) (hconflicts : work.conflicts = 1) :
    CountsTree ⟨none, work⟩ where
  of_none _ := by
    show work.conflicts = work.decisions + 1
    omega
  of_some _ hmodel := by cases hmodel

/-- A leaf with a model. -/
theorem countsTree_model (h : work.IsStraight) : CountsTree ⟨some i, work⟩ where
  of_none hmodel := by cases hmodel
  of_some _ _ := by
    show work.conflicts ≤ work.decisions
    rw [h.1, h.2]

/-- A decision whose first branch has a model. -/
theorem CountsTree.first (h : left.CountsTree) (hmodel : left.model = some i)
    (hwork : work.IsStraight) :
    CountsTree ⟨some i, work + Stats.decision + left.stats⟩ where
  of_none hnone := by cases hnone
  of_some _ _ := by
    obtain ⟨hdecisions, hconflicts⟩ := hwork
    have hleft := h.of_some i hmodel
    simp only [Stats.conflicts_add, Stats.decisions_add, Stats.decision]
    omega

/-- A decision whose first branch has failed. -/
theorem CountsTree.both (hleft : left.CountsTree) (hright : right.CountsTree)
    (hmodel : left.model = none) (hwork : work.IsStraight) :
    CountsTree ⟨right.model, work + Stats.decision + left.stats + right.stats⟩ := by
  obtain ⟨hdecisions, hconflicts⟩ := hwork
  have hfirst := hleft.of_none hmodel
  constructor
  · intro hnone
    have hsecond := hright.of_none hnone
    simp only [Stats.conflicts_add, Stats.decisions_add, Stats.decision]
    omega
  · intro i hsome
    have hsecond := hright.of_some i hsome
    simp only [Stats.conflicts_add, Stats.decisions_add, Stats.decision]
    omega

end Result

open Result (countsTree_conflict countsTree_model)

namespace State

variable {st st' : State} {work : Stats}

/-- A simplification that fails is one conflict. -/
theorem stats_of_simplify_none (h : st.simplify = (none, work)) :
    work.decisions = 0 ∧ work.conflicts = 1 := by
  unfold simplify at h
  split at h
  · cases h
    exact ⟨rfl, rfl⟩
  · cases h

theorem stats_of_simplify_some (h : st.simplify = (some st', work)) : work.IsStraight := by
  unfold simplify at h
  split at h
  · cases h
  · cases h
    exact ⟨rfl, rfl⟩

theorem run_countsTree (st : State) : st.run.CountsTree := by
  fun_induction run st with
  | case1 => exact countsTree_conflict rfl rfl
  | case2 => exact countsTree_model ⟨rfl, rfl⟩
  | case3 st _ _ work hsimple =>
    obtain ⟨hdecisions, hconflicts⟩ := stats_of_simplify_none hsimple
    exact countsTree_conflict hdecisions hconflicts
  | case4 st _ _ simple work hsimple _ => exact countsTree_model (stats_of_simplify_some hsimple)
  | case5 st _ _ simple work hsimple l _ left i hleft ih =>
    exact ih.first hleft (stats_of_simplify_some hsimple)
  | case6 st _ _ simple work hsimple l _ left hleft right ihLeft ihRight =>
    exact ihLeft.both ihRight hleft (stats_of_simplify_some hsimple)

end State

/-- The counters of a search describe a binary tree: without a model there is one conflict more than
decisions, and with one there are at most as many. -/
theorem solve_conflicts (s : ClauseSet) :
    ((solve s).model = none → (solve s).stats.conflicts = (solve s).stats.decisions + 1) ∧
    ∀ i, (solve s).model = some i → (solve s).stats.conflicts ≤ (solve s).stats.decisions := by
  have hrun := State.run_countsTree (State.initial s)
  constructor
  · intro hnone
    exact hrun.of_none (Option.map_eq_none_iff.mp hnone)
  · intro i hsome
    obtain ⟨j, hj, -⟩ := Option.map_eq_some_iff.mp hsome
    exact hrun.of_some j hj

end Clausal.Dpll
