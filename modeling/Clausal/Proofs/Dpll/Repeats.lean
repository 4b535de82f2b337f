import Mathlib
import Clausal.Proofs.Dpll.Correctness
import Clausal.Proofs.Repeats

/-! # Repeated clauses make no difference to a search

The search of a clause set and the search of one that repeats it go hand in hand: their states have
the same values, and the set of the one repeats the set of the other.  A round of unit propagation
meets a literal again that holds by then, or stops at a falsified clause before it
(`Repeats.round`); all other choices are read off first occurrences.  So the searches do
the same work and have the same result (`solve_eq_of_repeats`). -/

namespace Clausal.Dpll

namespace State

open Interpretation (makesTrue_iff)

variable {st st' simple : State} {l : Literal} {ls ls' seen : List Literal} {work : Stats}

/-- The states have the same values, and the set of the first repeats the set of the second. -/
structure Repeats (st' st : State) : Prop where
  set : st'.set.Repeats st.set
  assigned : st'.assigned = st.assigned

namespace Repeats

theorem assume (h : st'.Repeats st) (l : Literal) : (st'.assume l).Repeats (st.assume l) where
  set := h.set.restrict l
  assigned := congrArg (·.assume l) h.assigned

theorem assumeAll (h : st'.Repeats st) (ls : List Literal) :
    (st'.assumeAll ls).Repeats (st.assumeAll ls) := by
  induction ls generalizing st st' with
  | nil => exact h
  | cons l ls ih => exact ih (h.assume l)

theorem separate (h : st'.Repeats st) (hsep : st.Separate) : st'.Separate := by
  intro l hl
  rw [h.assigned]
  exact hsep l (h.set.literals.mem_iff.mp hl)

theorem hasEmptyClause_iff (h : st'.Repeats st) :
    st'.set.hasEmptyClause = true ↔ st.set.hasEmptyClause = true := by
  rw [h.set.hasEmptyClause_eq]

/-! ### Unit propagation -/

/-- A round over a list with echoes does the same as a round without them: where it comes to an
echo, the literal holds already or a clause is falsified. -/
theorem round (h : st'.Repeats st) (hls : Echoes Eq seen ls ls') (hsep : st.Separate)
    (hpending : Pending ls st)
    (hseen : ∀ l ∈ seen, st.set.hasEmptyClause = true ∨ st.assigned.makesTrue l = true) :
    (propagateRound ls' st').1.Repeats (propagateRound ls st).1 ∧
      (propagateRound ls' st').2 = (propagateRound ls st).2 := by
  induction hls generalizing st st' with
  | nil => exact ⟨h, rfl⟩
  | @keep seen ls ls' l _ ih =>
    by_cases hempty : st.set.hasEmptyClause = true
    · rw [propagateRound_of_hasEmptyClause hempty,
        propagateRound_of_hasEmptyClause (h.hasEmptyClause_iff.mpr hempty)]
      exact ⟨h, rfl⟩
    have hempty' := mt h.hasEmptyClause_iff.mp hempty
    by_cases hvalue : st.assigned.get? l.atom = some l.asserted
    · rw [propagateRound, if_neg hempty', h.assigned, if_pos hvalue, propagateRound, if_neg hempty,
        if_pos hvalue]
      refine ih h hsep hpending.tail (List.forall_mem_append.mpr ⟨hseen, ?_⟩)
      exact List.forall_mem_singleton.mpr (.inr (makesTrue_iff.mpr hvalue))
    · have hfresh := hpending.get?_eq_none hsep (Bool.eq_false_iff.mpr hempty) hvalue
      have hseen' : ∀ m ∈ seen ++ [l],
          (st.assume l).set.hasEmptyClause = true ∨ (st.assume l).assigned.makesTrue m = true := by
        refine List.forall_mem_append.mpr ⟨fun m hm => .inr ?_, fun m hm => .inr ?_⟩
        · exact (Interpretation.extends_assume hfresh).makesTrue ((hseen m hm).resolve_left hempty)
        · exact List.mem_singleton.mp hm ▸ Interpretation.makesTrue_assume _ _
      rw [propagateRound, if_neg hempty', h.assigned, if_neg hvalue, propagateRound, if_neg hempty,
        if_neg hvalue]
      obtain ⟨hnext, hcount⟩ := ih (h.assume l) (hsep.assume l) (hpending.tail.assume hfresh)
        hseen'
      exact ⟨hnext, congrArg (· + 1) hcount⟩
  | @echo seen ls ls' l m hl hlm _ ih =>
    subst hlm
    by_cases hempty : st.set.hasEmptyClause = true
    · rw [propagateRound_of_hasEmptyClause hempty,
        propagateRound_of_hasEmptyClause (h.hasEmptyClause_iff.mpr hempty)]
      exact ⟨h, rfl⟩
    have hempty' := mt h.hasEmptyClause_iff.mp hempty
    have hvalue := makesTrue_iff.mp ((hseen l hl).resolve_left hempty)
    rw [propagateRound, if_neg hempty', h.assigned, if_pos hvalue]
    exact ih h hsep hpending hseen

theorem propagation (h : st'.Repeats st) (hsep : st.Separate) :
    Option.Rel Repeats st'.propagate.1 st.propagate.1 ∧ st'.propagate.2 = st.propagate.2 := by
  fun_induction propagate st generalizing st'
  case case1 st hunits =>
    rw [propagate, if_pos (h.set.isEmpty_units.trans hunits)]
    exact ⟨.some h, rfl⟩
  case case2 st hunits next hnext =>
    obtain ⟨hround, hcount⟩ := h.round h.set.units hsep st.pending_units (List.forall_mem_nil _)
    rw [propagate, if_neg (h.set.isEmpty_units.trans_ne hunits)]
    simp only [hround.hasEmptyClause_iff.mpr hnext, if_true]
    exact ⟨.none, hcount⟩
  case case3 st hunits next hnext hlt rest ih =>
    obtain ⟨hround, hcount⟩ := h.round h.set.units hsep st.pending_units (List.forall_mem_nil _)
    obtain ⟨hrest, hrestCount⟩ := ih hround hsep.propagateRound
    rw [propagate_eq (h.separate hsep), if_neg (h.set.isEmpty_units.trans_ne hunits)]
    simp only [mt hround.hasEmptyClause_iff.mp hnext, if_false, Bool.false_eq_true]
    exact ⟨hrest, congrArg₂ (· + ·) hcount hrestCount⟩
  case case4 st hunits next hnext hge =>
    exact absurd (weight_propagateRound_lt hsep hunits hnext) hge

/-! ### Runs -/

theorem assumePure (h : st'.Repeats st) : st'.assumePure.Repeats st.assumePure := by
  rw [State.assumePure, State.assumePure, h.set.pureLiterals_eq]
  exact h.assumeAll _

theorem simplification (h : st'.Repeats st) (hsep : st.Separate) :
    Option.Rel Repeats st'.simplify.1 st.simplify.1 ∧ st'.simplify.2 = st.simplify.2 := by
  obtain ⟨hmid, hcount⟩ := h.propagation hsep
  unfold simplify
  generalize st.propagate = mid at hmid hcount
  generalize st'.propagate = mid' at hmid hcount
  rcases mid with ⟨mid, count⟩
  rcases mid' with ⟨mid', count'⟩
  cases hcount
  cases hmid with
  | none => exact ⟨.none, rfl⟩
  | some hmid => exact ⟨.some hmid.assumePure, by simp only [hmid.set.pureLiterals_eq]⟩

theorem simplify_eq_none (h : st'.Repeats st) (hsep : st.Separate)
    (hsimple : st.simplify = (none, work)) : st'.simplify = (none, work) := by
  obtain ⟨hrel, hwork⟩ := h.simplification hsep
  rw [hsimple] at hrel hwork
  rcases hsimple' : st'.simplify with ⟨_ | simple', work'⟩
  · rw [hsimple'] at hwork
    exact congrArg _ hwork
  · rw [hsimple'] at hrel
    cases hrel

theorem simplify_eq_some (h : st'.Repeats st) (hsep : st.Separate)
    (hsimple : st.simplify = (some simple, work)) :
    ∃ simple' : State, st'.simplify = (some simple', work) ∧ simple'.Repeats simple := by
  obtain ⟨hrel, hwork⟩ := h.simplification hsep
  rw [hsimple] at hrel hwork
  rcases hsimple' : st'.simplify with ⟨_ | simple', work'⟩
  · rw [hsimple'] at hrel
    cases hrel
  · rw [hsimple'] at hrel hwork
    cases hrel with
    | some hrepeats => exact ⟨simple', congrArg _ hwork, hrepeats⟩

/-- The runs of the states simplify and branch alike. -/
theorem exists_branch (h : st'.Repeats st) (hsep : st.Separate)
    (hempty : ¬ st.set.hasEmptyClause = true) (hunits : st.set.consistentUnits? = none)
    (hsimple : st.simplify = (some simple, work)) :
    ∃ simple' : State, simple'.Repeats simple ∧ st'.run = simple'.branch work := by
  obtain ⟨simple', hsimple', hrepeats⟩ := h.simplify_eq_some hsep hsimple
  refine ⟨simple', hrepeats, ?_⟩
  rw [State.run_eq (h.set.hasEmptyClause_eq.trans (Bool.eq_false_iff.mpr hempty))
    (h.set.consistentUnits?_eq.trans hunits), hsimple']

theorem run_eq (h : st'.Repeats st) (hsep : st.Separate) : st'.run = st.run := by
  fun_induction run st generalizing st'
  case case1 st hempty => rw [run, if_pos (h.hasEmptyClause_iff.mpr hempty)]
  case case2 st hempty ls hunits =>
    rw [run, if_neg (mt h.hasEmptyClause_iff.mp hempty), h.set.consistentUnits?_eq, hunits,
      h.assigned]
  case case3 st hempty hunits work hsimple =>
    rw [State.run_eq (h.set.hasEmptyClause_eq.trans (Bool.eq_false_iff.mpr hempty))
      (h.set.consistentUnits?_eq.trans hunits), h.simplify_eq_none hsep hsimple]
  case case4 st hempty hunits simple work hsimple hfirst =>
    obtain ⟨simple', hrepeats, hrun⟩ := h.exists_branch hsep hempty hunits hsimple
    rw [hrun]
    simp only [branch, hrepeats.set.first?_eq, hfirst, hrepeats.assigned]
  case case5 st hempty hunits simple work hsimple l hfirst left i hleft ih =>
    obtain ⟨simple', hrepeats, hrun⟩ := h.exists_branch hsep hempty hunits hsimple
    have hsep' := hsep.simplify (congrArg Prod.fst hsimple)
    have hrunLeft : (simple'.assume l).run = left := ih (hrepeats.assume l) (hsep'.assume l)
    rw [hrun]
    simp only [branch, hrepeats.set.first?_eq, hfirst, hrunLeft, hleft]
  case case6 st hempty hunits simple work hsimple l hfirst left hleft right ihLeft ihRight =>
    obtain ⟨simple', hrepeats, hrun⟩ := h.exists_branch hsep hempty hunits hsimple
    have hsep' := hsep.simplify (congrArg Prod.fst hsimple)
    have hrunLeft : (simple'.assume l).run = left := ihLeft (hrepeats.assume l) (hsep'.assume l)
    have hrunRight : (simple'.assume l.neg).run = right :=
      ihRight (hrepeats.assume l.neg) (hsep'.assume l.neg)
    rw [hrun]
    simp only [branch, hrepeats.set.first?_eq, hfirst, hrunLeft, hrunRight, hleft]

end Repeats
end State

/-- Clauses that are repeated, with their literals in whatever order, change nothing in a search. -/
theorem solve_eq_of_repeats {s t : ClauseSet} (h : t.Repeats s) : solve t = solve s := by
  have hinitial : (State.initial t).Repeats (State.initial s) := ⟨h, rfl⟩
  simp only [solve, hinitial.run_eq (State.separate_initial s), h.atoms_eq]

/-- Two clauses, of which the first is repeated right behind it and after the other. -/
theorem solve_eq_of_two_repeats :
    let a : Literal := ⟨⟨'A', by decide⟩, false⟩
    let b : Literal := ⟨⟨'B', by decide⟩, false⟩
    let s : ClauseSet := ⟨[.ofList [a, b], .ofList [a.neg, b]]⟩
    let t : ClauseSet := ⟨[.ofList [a, b], .ofList [b, a], .ofList [a.neg, b], .ofList [a, b]]⟩
    t.Repeats s ∧ solve t = solve s := by
  intro a b s t
  have hswap : Clause.SameLiterals (.ofList [a, b]) (.ofList [b, a]) := by
    intro l
    rw [Clause.mem_ofList, Clause.mem_ofList, (List.Perm.swap b a []).mem_iff]
  have hrepeats : t.Repeats s :=
    .keep (.echo (by decide) hswap (.keep (.echo (by decide) (.refl _) (.nil _))))
  exact ⟨hrepeats, solve_eq_of_repeats hrepeats⟩

end Clausal.Dpll
