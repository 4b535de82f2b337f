import Mathlib
import Clausal.Proofs.Dpll.Assumptions
import Clausal.Proofs.UnitClosure

/-! # Unit propagation computes the closure under the unit rule

Unit propagation only assumes literals that are in every set closed under the unit rule
(`exists_derivation`).  Where it ends without a conflict no unit clause is left, so its literals are
themselves closed and hence the least closed set (`Reaches.settles`); where it ends with a conflict,
the closure falsifies a clause (`propagate_settles`).  The closure does not depend on the order of
the clauses, so neither does the result (`propagate_computes_unitClosure`). -/

namespace Clausal.Dpll

namespace State

variable {st st' : State} {path ls : List Literal} {L : Set Literal}

/-! ### Derived assumptions -/

/-- Assuming literals of a closed set keeps it closed. -/
theorem Reaches.isUnitClosed (h : Reaches st path st') (hpath : ∀ l ∈ path, l ∈ L)
    (hclosed : st.set.IsUnitClosed L) : st'.set.IsUnitClosed L := by
  induction h with
  | refl => exact hclosed
  | step _ _ ih =>
    obtain ⟨hl, hpath⟩ := List.forall_mem_cons.mp hpath
    exact ih hpath (hclosed.restrict hl)

/-- A clause that is falsified after literals are assumed was falsified by them before. -/
theorem Reaches.isFalsifiedBy (h : Reaches st path st') (hpath : ∀ l ∈ path, l ∈ L)
    (hfalsified : st'.set.IsFalsifiedBy L) : st.set.IsFalsifiedBy L := by
  induction h with
  | refl => exact hfalsified
  | step _ _ ih =>
    obtain ⟨hl, hpath⟩ := List.forall_mem_cons.mp hpath
    exact (ih hpath hfalsified).of_restrict hl

/-- No two literals that were assumed are opposite. -/
theorem Reaches.neg_not_mem (h : Reaches st path st') : ∀ l ∈ path, l.neg ∉ path :=
  (Literal.nodup_atoms_iff.mp h.unsettled.2).2

/-- The assumptions of unit propagation: as many as it counts, all in each set of literals that is
closed under the unit rule, and leading to a state with a falsified clause or without units. -/
theorem exists_derivation (hsep : st.Separate) (hempty : st.set.hasEmptyClause = false) :
    ∃ path last, Reaches st path last ∧ path.length = st.propagate.2 ∧
      (∀ L, st.set.IsUnitClosed L → ∀ l ∈ path, l ∈ L) ∧
      (st.propagate.1 = none ∧ last.set.hasEmptyClause = true ∨
        st.propagate.1 = some last ∧ last.set.units = [] ∧ last.set.hasEmptyClause = false) := by
  fun_induction propagate st with
  | case1 st hunits =>
    refine ⟨[], st, .refl st, rfl, fun _ _ => List.forall_mem_nil _, .inr ⟨rfl, ?_, hempty⟩⟩
    exact List.isEmpty_iff.mp hunits
  | case2 st _ next hnext =>
    obtain ⟨path, hsub, hlen, hreach⟩ := propagateRound_reaches hsep st.pending_units
    refine ⟨path, next.1, hreach, hlen, fun L hL l hl => ?_, .inl ⟨rfl, hnext⟩⟩
    exact hL.mem_of_mem_units (hsub.subset hl)
  | case3 st _ next hnext _ rest ih =>
    obtain ⟨path, hsub, hlen, hreach⟩ := propagateRound_reaches hsep st.pending_units
    have hround : ∀ L, st.set.IsUnitClosed L → ∀ l ∈ path, l ∈ L := fun L hL l hl =>
      hL.mem_of_mem_units (hsub.subset hl)
    obtain ⟨path', last, hreach', hlen', hderived, hlast⟩ :=
      ih (hreach.separate hsep) (Bool.eq_false_iff.mpr hnext)
    refine ⟨path ++ path', last, hreach.trans hreach', by simp [hlen, hlen', next, rest],
      fun L hL => List.forall_mem_append.mpr ⟨hround L hL, ?_⟩, hlast⟩
    exact hderived L (hreach.isUnitClosed (hround L hL) hL)
  | case4 st hunits next hnext hge =>
    exact absurd (weight_propagateRound_lt hsep hunits hnext) hge

/-! ### The literals of the closure -/

/-- The second state is the first after exactly the literals of the closure have been assumed, none
of which was settled before: their clauses are dropped and their opposites removed, and no unit
clause and no empty clause is left. -/
structure Settles (st st' : State) (ls : List Literal) : Prop where
  nodup : ls.Nodup
  closure : {l | l ∈ ls} = st.set.unitClosure
  fresh : ∀ l ∈ ls, st.assigned.get? l.atom = none
  assigned : st'.assigned = st.assigned.assumeAll ls
  set : st'.set = st.set.reduce ls
  units : st'.set.units = []
  hasEmptyClause : st'.set.hasEmptyClause = false

/-- Derived assumptions that leave no unit clause and no empty clause are the closure. -/
theorem Reaches.settles (h : Reaches st ls st')
    (hderived : ∀ L, st.set.IsUnitClosed L → ∀ l ∈ ls, l ∈ L) (hunits : st'.set.units = [])
    (hempty : st'.set.hasEmptyClause = false) :
    st.Settles st' ls ∧ ¬ st.set.IsFalsifiedBy st.set.unitClosure := by
  have hset : st'.set = st.set.reduce ls := by
    rw [h.eq_assumeAll, set_assumeAll, ClauseSet.restrictAll_eq_reduce h.neg_not_mem]
  have hassigned : st'.assigned = st.assigned.assumeAll ls := by
    rw [h.eq_assumeAll, assigned_assumeAll]
  have hleast := st.set.isLeast_unitClosure
  have hclosed : st.set.IsUnitClosed {l | l ∈ ls} :=
    ClauseSet.isUnitClosed_of_reduce h.neg_not_mem (hset ▸ hunits) (hset ▸ hempty)
  have hclosure : {l | l ∈ ls} = st.set.unitClosure :=
    Set.Subset.antisymm (hderived _ hleast.1) (hleast.2 hclosed)
  refine ⟨⟨h.unsettled.2.of_map _, hclosure, h.unsettled.1, hassigned, hset, hunits, hempty⟩, ?_⟩
  rw [← hclosure]
  exact ClauseSet.not_isFalsifiedBy_of_reduce h.neg_not_mem (hset ▸ hempty)

/-- Unit propagation fails exactly if the unit rule falsifies a clause, and otherwise settles just
the literals that it derives. -/
theorem propagate_settles (hsep : st.Separate) (hempty : st.set.hasEmptyClause = false) :
    (st.propagate.1 = none ↔ st.set.IsFalsifiedBy st.set.unitClosure) ∧
    ∀ st', st.propagate.1 = some st' → ∃ ls, st.Settles st' ls ∧ st.propagate.2 = ls.length := by
  obtain ⟨path, last, hreach, hlen, hderived, ⟨hnone, hfalse⟩ | ⟨hsome, hunits, hlast⟩⟩ :=
    exists_derivation hsep hempty
  · have hfalsified := hreach.isFalsifiedBy (hderived _ st.set.isLeast_unitClosure.1)
      (ClauseSet.isFalsifiedBy_of_hasEmptyClause hfalse _)
    refine ⟨iff_of_true hnone hfalsified, fun st' hst' => ?_⟩
    rw [hnone] at hst'
    cases hst'
  · obtain ⟨hsettles, hnot⟩ := hreach.settles hderived hunits hlast
    refine ⟨iff_of_false (by simp [hsome]) hnot, fun st' hst' => ?_⟩
    rw [hsome] at hst'
    cases hst'
    exact ⟨path, hsettles, hlen.symm⟩

/-! ### The order of the clauses -/

/-- A set with the same clauses in another order settles the same literals, and what is left of it
is the same in that order. -/
theorem Settles.perm {t : ClauseSet} {t' : State} {ls' : List Literal} (h : st.Settles st' ls)
    (h' : (State.mk t st.assigned).Settles t' ls') (hperm : t.clauses.Perm st.set.clauses) :
    ls'.Perm ls ∧ t'.set.clauses.Perm st'.set.clauses := by
  have hclosure : t.unitClosure = st.set.unitClosure :=
    ClauseSet.unitClosure_congr fun _ => hperm.mem_iff
  have hmem : ∀ l, l ∈ ls' ↔ l ∈ ls :=
    Set.ext_iff.mp (h'.closure.trans (hclosure.trans h.closure.symm))
  refine ⟨(List.perm_ext_iff_of_nodup h'.nodup h.nodup).mpr hmem, ?_⟩
  rw [h.set, h'.set, ClauseSet.reduce_congr hmem]
  exact hperm.filterMap _

end State

/-- Unit propagation computes the closure under the unit rule: it fails exactly if the closure
falsifies a clause, and otherwise it settles the literals of the closure, counts them, and leaves
neither a unit clause nor an empty clause.  The order of the clauses makes no difference. -/
theorem propagate_computes_unitClosure (st : State) (hsep : st.Separate)
    (hempty : st.set.hasEmptyClause = false) :
    (st.propagate.1 = none ↔ st.set.IsFalsifiedBy st.set.unitClosure) ∧
    (∀ st', st.propagate.1 = some st' → ∃ ls, st.Settles st' ls ∧ st.propagate.2 = ls.length) ∧
    ∀ t : ClauseSet, t.clauses.Perm st.set.clauses →
      ((State.mk t st.assigned).propagate.1 = none ↔ st.propagate.1 = none) ∧
      ∀ st' t', st.propagate.1 = some st' → (State.mk t st.assigned).propagate.1 = some t' →
        ∃ ls ls', st.Settles st' ls ∧ (State.mk t st.assigned).Settles t' ls' ∧ ls'.Perm ls ∧
          t'.set.clauses.Perm st'.set.clauses := by
  obtain ⟨hnone, hsome⟩ := State.propagate_settles hsep hempty
  refine ⟨hnone, hsome, fun t hperm => ?_⟩
  have hclauses : ∀ c, c ∈ t.clauses ↔ c ∈ st.set.clauses := fun _ => hperm.mem_iff
  have htsep : (State.mk t st.assigned).Separate := by
    intro l hl
    obtain ⟨c, hc, hlc⟩ := ClauseSet.mem_literals.mp hl
    exact hsep l (ClauseSet.mem_literals.mpr ⟨c, (hclauses c).mp hc, hlc⟩)
  have htempty : t.hasEmptyClause = false := by
    rw [Bool.eq_false_iff, Ne, ClauseSet.hasEmptyClause_iff] at hempty ⊢
    rintro ⟨c, hc, hnone⟩
    exact hempty ⟨c, (hclauses c).mp hc, hnone⟩
  obtain ⟨htnone, htsome⟩ := State.propagate_settles htsep htempty
  constructor
  · rw [hnone, htnone, ClauseSet.isFalsifiedBy_congr hclauses, ClauseSet.unitClosure_congr hclauses]
  · intro st' t' hst' ht'
    obtain ⟨ls, hls, -⟩ := hsome st' hst'
    obtain ⟨ls', hls', -⟩ := htsome t' ht'
    exact ⟨ls, ls', hls, hls', hls.perm hls' hperm⟩

/-- A unit clause whose opposite is removed from a clause of two literals, which leaves a second
unit clause. -/
theorem propagate_settles_two_literals :
    let a : Atom := ⟨'A', by decide⟩
    let b : Atom := ⟨'B', by decide⟩
    let c : Atom := ⟨'C', by decide⟩
    let d : Atom := ⟨'D', by decide⟩
    let e : Atom := ⟨'E', by decide⟩
    let st : State := ⟨⟨[.ofList [⟨c, false⟩, ⟨d, true⟩], .ofList [⟨a, true⟩, ⟨b, true⟩],
      .unit ⟨a, false⟩]⟩, ⟨[(e, true)], by decide⟩⟩
    let st' : State := ⟨⟨[.ofList [⟨c, false⟩, ⟨d, true⟩]]⟩,
      ⟨[(e, true), (a, true), (b, false)], by decide⟩⟩
    st.Separate ∧ st.set.hasEmptyClause = false ∧ st.propagate = (some st', 2) ∧
      ∃ ls, st.Settles st' ls ∧ 2 = ls.length := by
  intro a b c d e st st'
  have hsep : st.Separate := by
    intro l hl
    revert l
    decide
  have hempty : st.set.hasEmptyClause = false := by decide
  have hpropagate : st.propagate = (some st', 2) := by decide +kernel
  refine ⟨hsep, hempty, hpropagate, ?_⟩
  obtain ⟨-, hsettles, -⟩ := propagate_computes_unitClosure st hsep hempty
  rw [hpropagate] at hsettles
  exact hsettles st' rfl

end Clausal.Dpll
