import Mathlib
import Clausal.Proofs.Dpll.Assumptions

/-! # Correctness of the search

A model that a run finds keeps the values chosen before and satisfies the set of its state
(`run_sound`); a run that finds none starts from a set without any model (`run_complete`).  For a
whole search, `solve_decides` gives a model over exactly the atoms of the set, or the
unsatisfiability of the set. -/

namespace Clausal.Dpll

namespace State

variable {st st' : State} {i : Interpretation}

/-! ### Simplification -/

theorem simplify_reaches (hsep : st.Separate) (h : st.simplify.1 = some st') :
    ∃ path, path.length = st.simplify.2.propagations + st.simplify.2.pureLiterals ∧
      Reaches st path st' := by
  unfold simplify at h ⊢
  split at h
  · cases h
  · next mid count hmid =>
    cases h
    obtain ⟨path, hlen, hreach⟩ := propagate_reaches hsep (congrArg Prod.fst hmid)
    rw [hmid] at hlen
    refine ⟨path ++ mid.set.pureLiterals, by simp [hlen], hreach.trans ?_⟩
    exact assumePure_reaches (hreach.separate hsep)

theorem Separate.simplify (hsep : st.Separate) (h : st.simplify.1 = some st') : st'.Separate := by
  obtain ⟨_, -, hreach⟩ := simplify_reaches hsep h
  exact hreach.separate hsep

theorem satisfies_simplify (h : i.satisfies st.set = true) :
    ∃ st', st.simplify.1 = some st' ∧ i.satisfies st'.set = true := by
  obtain ⟨mid, hmid, hsat⟩ := satisfies_propagate h
  unfold simplify
  split
  · next count hnone =>
    rw [hnone] at hmid
    cases hmid
  · next mid' count hsome =>
    rw [hsome] at hmid
    cases hmid
    exact ⟨_, rfl, satisfies_assumePure hsat⟩

theorem hasEmptyClause_simplify (hempty : st.set.hasEmptyClause = false)
    (h : st.simplify.1 = some st') : st'.set.hasEmptyClause = false := by
  unfold simplify at h
  split at h
  · cases h
  · next mid count hmid =>
    cases h
    exact mid.hasEmptyClause_assumePure.trans
      (hasEmptyClause_propagate hempty (congrArg Prod.fst hmid))

/-! ### Consistent units -/

theorem mapM_unit?_eq_some {cs : List Clause} {ls : List Literal}
    (h : cs.mapM Clause.unit? = some ls) : cs = ls.map Clause.unit := by
  induction cs generalizing ls with
  | nil => simpa using h
  | cons c cs ih =>
    simp only [List.mapM_cons, Option.pure_def, Option.bind_eq_bind, Option.bind_eq_some_iff,
      Option.some.injEq] at h
    obtain ⟨l, hl, rest, hrest, rfl⟩ := h
    rw [Clause.unit?_eq_some_iff.mp hl, ih hrest, List.map_cons]

/-- Consistent units make up the whole set, and no two are over one atom. -/
theorem consistentUnits?_eq_some {s : ClauseSet} {ls : List Literal}
    (h : s.consistentUnits? = some ls) :
    (∀ c ∈ s.clauses, ∃ l ∈ ls, c = Clause.unit l) ∧ (∀ l ∈ ls, l ∈ s.literals) ∧
      (ls.map (·.atom)).Nodup := by
  unfold ClauseSet.consistentUnits? at h
  split at h
  · cases h
  next us hus =>
  have hclauses := mapM_unit?_eq_some hus
  split at h
  · cases h
  next hopposite =>
  cases h
  have hmem : ∀ l, l ∈ (OrderedSet.ofList us).toList ↔ l ∈ us := fun _ => OrderedSet.mem_ofList
  refine ⟨fun c hc => ?_, fun l hl => ?_, ?_⟩
  · rw [hclauses] at hc
    obtain ⟨l, hl, rfl⟩ := List.mem_map.mp hc
    exact ⟨l, (hmem l).mpr hl, rfl⟩
  · have hunit : Clause.unit l ∈ s.clauses := hclauses ▸ List.mem_map_of_mem ((hmem l).mp hl)
    exact ClauseSet.mem_literals.mpr ⟨_, hunit, Clause.mem_unit.mpr rfl⟩
  · refine Literal.nodup_atoms_iff.mpr ⟨OrderedSet.nodup _, fun l hl hneg => hopposite ?_⟩
    exact List.any_eq_true.mpr ⟨l, (hmem l).mp hl, decide_eq_true ((hmem l.neg).mp hneg)⟩

theorem Separate.unsettled_consistentUnits {ls : List Literal} (hsep : st.Separate)
    (h : st.set.consistentUnits? = some ls) : st.assigned.Unsettled ls := by
  obtain ⟨-, hliterals, hatoms⟩ := consistentUnits?_eq_some h
  exact ⟨fun l hl => hsep l (hliterals l hl), hatoms⟩

/-- Assuming consistent units completes the values chosen to a model. -/
theorem isModel_assumeAll {ls : List Literal} (hsep : st.Separate)
    (h : st.set.consistentUnits? = some ls) : st.IsModel (st.assigned.assumeAll ls) := by
  have hreach := reaches_assumeAll (hsep.unsettled_consistentUnits h)
  have hassigned : (st.assumeAll ls).assigned = st.assigned.assumeAll ls := assigned_assumeAll st ls
  rw [← hassigned]
  refine ⟨hreach.extends_assigned, Interpretation.satisfies_iff.mpr fun c hc => ?_⟩
  obtain ⟨l, hl, rfl⟩ := (consistentUnits?_eq_some h).1 c hc
  exact Interpretation.satisfiesClause_unit.mpr (hreach.makesTrue l hl)

/-! ### Runs -/

/-- The end of a run, after some work: it branches on the first literal that is left. -/
def branch (st : State) (work : Stats) : Result :=
  match st.set.first? with
  | none => ⟨some st.assigned, work⟩
  | some l =>
    let left := (st.assume l).run
    match left.model with
    | some i => ⟨some i, work + Stats.decision + left.stats⟩
    | none =>
      let right := (st.assume l.neg).run
      ⟨right.model, work + Stats.decision + left.stats + right.stats⟩

/-- A run that neither starts from a conflict nor from consistent units simplifies and branches. -/
theorem run_eq (hempty : st.set.hasEmptyClause = false)
    (hunits : st.set.consistentUnits? = none) :
    st.run = match st.simplify with
      | (none, work) => ⟨none, work⟩
      | (some simple, work) => simple.branch work := by
  rw [run, if_neg (Bool.eq_false_iff.mp hempty), hunits]
  simp only
  split
  · next h => rw [h]
  · next simple work h =>
    rw [h]
    split
    · next hfirst => simp only [branch, hfirst]
    · next l hfirst =>
      cases hmodel : (simple.assume l).run.model with
      | none => simp only [branch, hfirst, hmodel]
      | some i => simp only [branch, hfirst, hmodel]

/-- A model of either branch is a model of the state before simplification. -/
theorem isModel_of_branch {simple : State} {l m : Literal} (hsep : st.Separate)
    (hsimple : st.simplify.1 = some simple) (hl : simple.set.first? = some l)
    (hatom : m.atom = l.atom) (h : (simple.assume m).IsModel i) : st.IsModel i := by
  obtain ⟨path, -, hreach⟩ := simplify_reaches hsep hsimple
  have hfresh : simple.assigned.get? m.atom = none := by
    rw [hatom]
    exact hreach.separate hsep l (ClauseSet.mem_literals_of_first? hl)
  exact hreach.isModel ((Reaches.step hfresh (.refl _)).isModel h)

/-- Without a literal to branch on and without a falsified clause nothing is left to satisfy. -/
theorem satisfies_of_first?_eq_none {s : ClauseSet} (hempty : s.hasEmptyClause = false)
    (h : s.first? = none) : i.satisfies s = true := by
  rw [Interpretation.satisfies_iff]
  intro c hc
  refine absurd (ClauseSet.hasEmptyClause_iff.mpr ⟨c, hc, fun l hl => ?_⟩)
    (Bool.eq_false_iff.mp hempty)
  have hfirst : c.literals.toList.head? = none := List.findSome?_eq_none_iff.mp h c hc
  rw [Clause.mem_def, List.head?_eq_none_iff.mp hfirst] at hl
  cases hl

theorem run_sound (hsep : st.Separate) (h : st.run.model = some i) : st.IsModel i := by
  fun_induction run st with
  | case1 => cases h
  | case2 st _ ls hunits =>
    cases h
    exact isModel_assumeAll hsep hunits
  | case3 => cases h
  | case4 st hempty _ simple work hsimple hfirst =>
    cases h
    obtain ⟨path, -, hreach⟩ := simplify_reaches hsep (congrArg Prod.fst hsimple)
    have hsimpleEmpty :=
      hasEmptyClause_simplify (Bool.eq_false_iff.mpr hempty) (congrArg Prod.fst hsimple)
    exact hreach.isModel ⟨.refl _, satisfies_of_first?_eq_none hsimpleEmpty hfirst⟩
  | case5 st _ _ simple work hsimple l hfirst left j hleft ih =>
    obtain ⟨path, -, hreach⟩ := simplify_reaches hsep (congrArg Prod.fst hsimple)
    have hbranch := ih ((hreach.separate hsep).assume l) (hleft.trans h)
    exact isModel_of_branch hsep (congrArg Prod.fst hsimple) hfirst rfl hbranch
  | case6 st _ _ simple work hsimple l hfirst left _ right _ ihRight =>
    obtain ⟨path, -, hreach⟩ := simplify_reaches hsep (congrArg Prod.fst hsimple)
    have hbranch := ihRight ((hreach.separate hsep).assume l.neg) h
    exact isModel_of_branch hsep (congrArg Prod.fst hsimple) hfirst (Literal.neg_atom l) hbranch

/-- A run without a result starts from a set without a model. -/
theorem run_complete (h : st.run.model = none) (i : Interpretation) :
    i.satisfies st.set = false := by
  rw [Bool.eq_false_iff]
  intro hsat
  fun_induction run st with
  | case1 st hempty =>
    rw [Interpretation.not_satisfies_of_hasEmptyClause hempty] at hsat
    cases hsat
  | case2 => cases h
  | case3 st _ _ work hsimple =>
    obtain ⟨simple, hsome, -⟩ := satisfies_simplify hsat
    rw [hsimple] at hsome
    cases hsome
  | case4 => cases h
  | case5 => cases h
  | case6 st _ _ simple work hsimple l _ left hleft right ihLeft ihRight =>
    obtain ⟨simple', hsome, hsat'⟩ := satisfies_simplify hsat
    rw [hsimple] at hsome
    cases hsome
    by_cases hl : i.makesTrue l.neg = true
    · exact ihRight h ((Interpretation.satisfies_restrict_iff hl).mpr hsat')
    · exact ihLeft hleft (Interpretation.satisfies_restrict (Bool.eq_false_iff.mpr hl) hsat')

end State

theorem solve_sound {s : ClauseSet} {i : Interpretation} (h : (solve s).model = some i) :
    i.atoms = s.atoms ∧ i.satisfies s = true := by
  obtain ⟨j, hj, rfl⟩ := Option.map_eq_some_iff.mp h
  have hsat := (State.run_sound (State.separate_initial s) hj).2
  exact ⟨Interpretation.atoms_totalOn j s.atoms, Interpretation.satisfies_totalOn hsat⟩

theorem solve_complete {s : ClauseSet} (h : (solve s).model = none) (i : Interpretation) :
    i.satisfies s = false :=
  State.run_complete (Option.map_eq_none_iff.mp h) i

/-- The search decides satisfiability: a model that it finds lists exactly the atoms of the set in
their order and satisfies it, and where it finds none no interpretation satisfies the set. -/
theorem solve_decides (s : ClauseSet) :
    match (solve s).model with
    | some i => i.atoms = s.atoms ∧ i.satisfies s = true
    | none => ∀ i : Interpretation, i.satisfies s = false := by
  cases h : (solve s).model with
  | some i => exact solve_sound h
  | none => exact solve_complete h

end Clausal.Dpll
