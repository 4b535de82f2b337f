import Mathlib
import Clausal.Proofs.Dpll.Counters
import Clausal.Proofs.Dpll.Path

/-! # Bounds on a search

The atoms of the set are the fuel of a search: each assumption settles one of them for good
(`ClauseSet.size_atoms_restrict_lt`).  So unit propagation ends by itself after at most as many
rounds as there are atoms, whatever else would stop it (`State.exists_loop`), the recursion is at
most as deep, and there are fewer decisions than vectors (`search_is_bounded`). -/

namespace Clausal

/-! ### Counting atoms -/

namespace ClauseSet

variable {s t : ClauseSet} {l m : Literal}

theorem size_atoms_le (h : t.literals ⊆ s.literals) : t.atoms.size ≤ s.atoms.size := by
  refine (List.subperm_of_subset (OrderedSet.nodup _) fun a ha => ?_).length_le
  obtain ⟨m, hm, rfl⟩ := mem_atoms.mp ha
  exact mem_atoms.mpr ⟨m, h hm, rfl⟩

/-- A restriction by a literal over an atom of the set loses this atom. -/
theorem size_atoms_restrict_lt (hm : m ∈ s.literals) (hatom : m.atom = l.atom) :
    (s.restrict l).atoms.size < s.atoms.size := by
  have hnot : l.atom ∉ (s.restrict l).atoms.toList := by
    intro ha
    obtain ⟨k, hk, hkatom⟩ := mem_atoms.mp ha
    exact (mem_literals_restrict hk).2 hkatom
  have hnodup := List.nodup_cons.mpr ⟨hnot, (s.restrict l).atoms.nodup⟩
  refine (List.subperm_of_subset hnodup fun a ha => ?_).length_le
  rcases List.mem_cons.mp ha with rfl | ha
  · exact mem_atoms.mpr ⟨m, hm, hatom⟩
  · obtain ⟨k, hk, rfl⟩ := mem_atoms.mp ha
    exact mem_atoms.mpr ⟨k, (mem_literals_restrict hk).1, rfl⟩

end ClauseSet

namespace Dpll

namespace State

variable {st st' simple : State} {l m : Literal} {ls path : List Literal}

theorem Reaches.size_atoms_le (h : Reaches st path st') :
    st'.set.atoms.size ≤ st.set.atoms.size := by
  induction h with
  | refl => exact Nat.le_refl _
  | step _ _ ih =>
    exact ih.trans (ClauseSet.size_atoms_le fun _ hm => (ClauseSet.mem_literals_restrict hm).1)

/-- A round settles an atom with each assumption that it counts. -/
theorem size_atoms_propagateRound (hsep : st.Separate) (hpending : Pending ls st) :
    (propagateRound ls st).2 + (propagateRound ls st).1.set.atoms.size ≤ st.set.atoms.size := by
  fun_induction propagateRound ls st with
  | case1 st => exact (Nat.zero_add _).le
  | case2 l ls st => exact (Nat.zero_add _).le
  | case3 l ls st _ _ ih => exact ih hsep hpending.tail
  | case4 l ls st hempty hvalue next ih =>
    have hempty := Bool.eq_false_iff.mpr hempty
    have hfresh := hpending.get?_eq_none hsep hempty hvalue
    have hrest : next.2 + next.1.set.atoms.size ≤ (st.assume l).set.atoms.size :=
      ih (hsep.assume l) (hpending.tail.assume hfresh)
    have hunit := ClauseSet.mem_literals_of_mem_units (hpending.mem_units hempty hvalue)
    have hlt : (st.assume l).set.atoms.size < st.set.atoms.size :=
      ClauseSet.size_atoms_restrict_lt hunit rfl
    show next.2 + 1 + next.1.set.atoms.size ≤ st.set.atoms.size
    omega

/-- A round with units before it assumes the first of them. -/
theorem propagateRound_pos (hsep : st.Separate) (hempty : st.set.hasEmptyClause = false)
    (hunits : st.set.units ≠ []) : 0 < (propagateRound st.set.units st).2 := by
  cases hlist : st.set.units with
  | nil => exact absurd hlist hunits
  | cons l ls =>
    have hl : l ∈ st.set.literals := ClauseSet.mem_literals_of_mem_units (by simp [hlist])
    have hvalue : st.assigned.get? l.atom ≠ some l.asserted := by simp [hsep l hl]
    rw [propagateRound, if_neg (Bool.eq_false_iff.mp hempty), if_neg hvalue]
    exact Nat.succ_pos _

/-! ### The loop of unit propagation -/

/-- The loop of unit propagation without any other reason to stop: it goes through rounds that make
the given numbers of assumptions, and ends where it finds no unit or a falsified clause. -/
inductive Loop : State → List ℕ → Option State → Prop
  | fixpoint {st : State} (hunits : st.set.units = []) : Loop st [] (some st)
  | conflict {st next : State} {count : ℕ} (hunits : st.set.units ≠ [])
      (hround : propagateRound st.set.units st = (next, count))
      (hempty : next.set.hasEmptyClause = true) : Loop st [count] none
  | again {st next : State} {count : ℕ} {rounds : List ℕ} {result : Option State}
      (hunits : st.set.units ≠ []) (hround : propagateRound st.set.units st = (next, count))
      (hempty : next.set.hasEmptyClause = false) (hrest : Loop next rounds result) :
      Loop st (count :: rounds) result

/-- The loop ends, each of its rounds assumes something, and together they assume at most as many
literals as the set has atoms. -/
theorem exists_loop (hsep : st.Separate) (hempty : st.set.hasEmptyClause = false) :
    ∃ rounds, Loop st rounds st.propagate.1 ∧ rounds.sum = st.propagate.2 ∧
      (∀ count ∈ rounds, 0 < count) ∧ rounds.sum ≤ st.set.atoms.size := by
  fun_induction propagate st with
  | case1 st hunits =>
    exact ⟨[], .fixpoint (List.isEmpty_iff.mp hunits), rfl, List.forall_mem_nil _, Nat.zero_le _⟩
  | case2 st hunits next hnext =>
    have hunits := mt List.isEmpty_iff.mpr hunits
    have hsize : next.2 + next.1.set.atoms.size ≤ st.set.atoms.size :=
      size_atoms_propagateRound hsep st.pending_units
    refine ⟨[next.2], .conflict hunits rfl hnext, List.sum_singleton, ?_, ?_⟩
    · exact List.forall_mem_singleton.mpr (propagateRound_pos hsep hempty hunits)
    · rw [List.sum_singleton]
      omega
  | case3 st hunits next hnext hlt rest ih =>
    have hunits := mt List.isEmpty_iff.mpr hunits
    have hnext := Bool.eq_false_iff.mpr hnext
    have hsize : next.2 + next.1.set.atoms.size ≤ st.set.atoms.size :=
      size_atoms_propagateRound hsep st.pending_units
    obtain ⟨rounds, hloop, hsum, hpos, hle⟩ := ih hsep.propagateRound hnext
    refine ⟨next.2 :: rounds, .again hunits rfl hnext hloop, ?_, ?_, ?_⟩
    · rw [List.sum_cons, hsum]
    · exact List.forall_mem_cons.mpr ⟨propagateRound_pos hsep hempty hunits, hpos⟩
    · rw [List.sum_cons]
      omega
  | case4 st hunits next hnext hge =>
    exact absurd (weight_propagateRound_lt hsep hunits hnext) hge

/-! ### Decisions -/

/-- A branch has fewer atoms than the run that it belongs to. -/
theorem size_atoms_branch_lt (hsep : st.Separate) (hsimple : st.simplify.1 = some simple)
    (hfirst : simple.set.first? = some l) (hatom : l.atom = m.atom) :
    (simple.assume m).set.atoms.size < st.set.atoms.size := by
  obtain ⟨_, -, hreach⟩ := simplify_reaches hsep hsimple
  have hl := ClauseSet.mem_literals_of_first? hfirst
  exact (ClauseSet.size_atoms_restrict_lt hl hatom).trans_le hreach.size_atoms_le

/-- A run makes fewer decisions than there are vectors over the atoms of its set. -/
theorem decisions_run_lt (hsep : st.Separate) :
    st.run.stats.decisions < 2 ^ st.set.atoms.size := by
  fun_induction run st with
  | case1 => exact Nat.two_pow_pos _
  | case2 => exact Nat.two_pow_pos _
  | case3 st _ _ work hsimple =>
    rw [(stats_of_simplify_none hsimple).1]
    exact Nat.two_pow_pos _
  | case4 st _ _ simple work hsimple _ =>
    rw [(stats_of_simplify_some hsimple).1]
    exact Nat.two_pow_pos _
  | case5 st _ _ simple work hsimple l hfirst left i hleft ih =>
    have hsimple' := congrArg Prod.fst hsimple
    have hsep' := hsep.simplify hsimple'
    have hleftDecisions : left.stats.decisions < 2 ^ (simple.assume l).set.atoms.size :=
      ih (hsep'.assume l)
    have hleftSize := size_atoms_branch_lt hsep hsimple' hfirst rfl
    have hpow := Nat.pow_le_pow_right Nat.two_pos (Nat.succ_le_of_lt hleftSize)
    rw [Nat.pow_succ] at hpow
    simp only [Stats.decisions_add, (stats_of_simplify_some hsimple).1, Stats.decision]
    omega
  | case6 st _ _ simple work hsimple l hfirst left hleft right ihLeft ihRight =>
    have hsimple' := congrArg Prod.fst hsimple
    have hsep' := hsep.simplify hsimple'
    have hleftDecisions : left.stats.decisions < 2 ^ (simple.assume l).set.atoms.size :=
      ihLeft (hsep'.assume l)
    have hrightDecisions : right.stats.decisions < 2 ^ (simple.assume l.neg).set.atoms.size :=
      ihRight (hsep'.assume l.neg)
    have hleftSize := size_atoms_branch_lt hsep hsimple' hfirst rfl
    have hrightSize := size_atoms_branch_lt hsep hsimple' hfirst l.neg_atom.symm
    have hleftPow := Nat.pow_le_pow_right Nat.two_pos (Nat.succ_le_of_lt hleftSize)
    have hrightPow := Nat.pow_le_pow_right Nat.two_pos (Nat.succ_le_of_lt hrightSize)
    rw [Nat.pow_succ] at hleftPow hrightPow
    simp only [Stats.decisions_add, (stats_of_simplify_some hsimple).1, Stats.decision]
    omega

end State

/-- On a set of `n` atoms the recursion is at most `n` deep, as no path to the entry of a run takes
more than `n` decisions.  Wherever a run comes to unit propagation, its loop ends after at most `n`
rounds that assume something and one that finds no unit.  The whole search takes fewer than `2 ^ n`
decisions. -/
theorem search_is_bounded (s : ClauseSet) :
    (∀ trace st, Path (.entry (.initial s)) trace (.entry st) →
      trace.countP (·.reason = .decision) ≤ s.atoms.size ∧
      (st.set.hasEmptyClause = false → ∃ rounds, State.Loop st rounds st.propagate.1 ∧
        (∀ count ∈ rounds, 0 < count) ∧ rounds.length ≤ s.atoms.size)) ∧
    (solve s).stats.decisions ≤ 2 ^ s.atoms.size - 1 := by
  have hsep := State.separate_initial s
  refine ⟨fun trace st hpath => ⟨?_, fun hempty => ?_⟩, ?_⟩
  · exact (List.countP_le_length).trans hpath.length_le
  · have hst : st.Separate := hpath.sound hsep
    obtain ⟨rounds, hloop, -, hpos, hle⟩ := State.exists_loop hst hempty
    refine ⟨rounds, hloop, hpos, ?_⟩
    calc rounds.length ≤ rounds.sum := List.length_le_sum_of_one_le rounds hpos
      _ ≤ st.set.atoms.size := hle
      _ ≤ s.atoms.size := ClauseSet.size_atoms_le hpath.literals_subset
  · have hlt := State.decisions_run_lt hsep
    exact Nat.le_sub_one_of_lt hlt

end Dpll
end Clausal
