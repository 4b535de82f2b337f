import Mathlib
import Clausal.Dpll
import Clausal.Proofs.Satisfaction

/-! # Assumptions of a search

A search keeps the atoms of its set apart from the atoms with a value (`Separate`), so every
assumption is about an atom without one.  `Reaches st ls st'` says that such assumptions `ls` lead
from `st` to `st'`; it yields at once that values are kept (`Reaches.extends_assigned`) and that a
model of `st'` is a model of `st` (`Reaches.isModel`).  Unit propagation and the elimination of
pure literals are paths of this kind (`propagate_reaches`, `assumePure_reaches`), and neither
loses a model (`satisfies_propagate`, `satisfies_assumePure`). -/

namespace Clausal.Dpll.State

open Interpretation (makesTrue_iff)

variable {st st' st'' : State} {l : Literal} {ls ls' : List Literal} {i : Interpretation}

/-- No atom of the set has a value. -/
def Separate (st : State) : Prop := ∀ l ∈ st.set.literals, st.assigned.get? l.atom = none

theorem separate_initial (s : ClauseSet) : (initial s).Separate := fun _ _ => rfl

theorem Separate.assume (h : st.Separate) (l : Literal) : (st.assume l).Separate := by
  intro m hm
  obtain ⟨hmem, hatom⟩ := ClauseSet.mem_literals_restrict hm
  show (st.assigned.assume l).get? m.atom = none
  rw [Interpretation.get?_assume, if_neg hatom]
  exact h m hmem

/-- The interpretation keeps the values chosen and satisfies what is left. -/
def IsModel (st : State) (i : Interpretation) : Prop :=
  i.Extends st.assigned ∧ i.satisfies st.set = true

/-- Assuming the literals in turn leads from one state to another, and the atom of each literal
has no value when its turn comes. -/
inductive Reaches : State → List Literal → State → Prop
  | refl (st : State) : Reaches st [] st
  | step {st st' : State} {l : Literal} {ls : List Literal} :
      st.assigned.get? l.atom = none → Reaches (st.assume l) ls st' → Reaches st (l :: ls) st'

namespace Reaches

theorem trans (h : Reaches st ls st') (h' : Reaches st' ls' st'') :
    Reaches st (ls ++ ls') st'' := by
  induction h with
  | refl => exact h'
  | step hfresh _ ih => exact step hfresh (ih h')

theorem separate (h : Reaches st ls st') (hsep : st.Separate) : st'.Separate := by
  induction h with
  | refl => exact hsep
  | step _ _ ih => exact ih (hsep.assume _)

theorem extends_assigned (h : Reaches st ls st') : st'.assigned.Extends st.assigned := by
  induction h with
  | refl => exact Interpretation.Extends.refl _
  | step hfresh _ ih => exact ih.trans (Interpretation.extends_assume hfresh)

theorem makesTrue (h : Reaches st ls st') : ∀ l ∈ ls, st'.assigned.makesTrue l = true := by
  induction h with
  | refl => simp
  | step _ hrest ih =>
    refine List.forall_mem_cons.mpr ⟨?_, ih⟩
    exact hrest.extends_assigned.makesTrue (Interpretation.makesTrue_assume _ _)

/-- A model of the state that was reached is a model of the state before. -/
theorem isModel (h : Reaches st ls st') (hi : st'.IsModel i) : st.IsModel i := by
  refine ⟨hi.1.trans h.extends_assigned, ?_⟩
  induction h with
  | refl => exact hi.2
  | @step st st' l ls _ hrest ih =>
    have htrue : i.makesTrue l = true :=
      (hi.1.trans hrest.extends_assigned).makesTrue (Interpretation.makesTrue_assume _ _)
    exact (Interpretation.satisfies_restrict_iff htrue).mp (ih hi)

end Reaches

/-- Literals over different atoms without a value can be assumed in turn. -/
theorem reaches_assumeAll (h : st.assigned.Unsettled ls) : Reaches st ls (st.assumeAll ls) := by
  induction ls generalizing st with
  | nil => exact .refl st
  | cons l ls ih =>
    obtain ⟨hl, hls⟩ := Interpretation.unsettled_cons.mp h
    exact .step hl (ih hls)

namespace Reaches

theorem unsettled (h : Reaches st ls st') : st.assigned.Unsettled ls := by
  induction h with
  | refl => exact ⟨List.forall_mem_nil _, List.nodup_nil⟩
  | step hfresh _ ih => exact Interpretation.unsettled_cons.mpr ⟨hfresh, ih⟩

theorem eq_assumeAll (h : Reaches st ls st') : st' = st.assumeAll ls := by
  induction h with
  | refl => rfl
  | step _ _ ih => exact ih

end Reaches

/-! ### Unit propagation -/

/-- Each literal of a list that is being propagated holds already or is still a unit clause,
unless a clause has been falsified. -/
def Pending (ls : List Literal) (st : State) : Prop :=
  ∀ l ∈ ls, st.assigned.makesTrue l = true ∨ l ∈ st.set.units ∨ st.set.hasEmptyClause = true

theorem pending_units (st : State) : Pending st.set.units st := fun _ hl => .inr (.inl hl)

theorem Pending.assume (h : Pending ls st) (hfresh : st.assigned.get? l.atom = none) :
    Pending ls (st.assume l) := by
  intro m hm
  rcases h m hm with htrue | hunit | hempty
  · exact .inl ((Interpretation.extends_assume hfresh).makesTrue htrue)
  · by_cases hml : m = l
    · exact .inl (hml ▸ Interpretation.makesTrue_assume _ _)
    · exact .inr (ClauseSet.mem_units_restrict hunit hml)
  · exact .inr (.inr (ClauseSet.hasEmptyClause_restrict l hempty))

theorem Pending.tail (h : Pending (l :: ls) st) : Pending ls st :=
  fun m hm => h m (List.mem_cons_of_mem _ hm)

/-- The next literal of a list that is being propagated is a unit clause, unless it holds. -/
theorem Pending.mem_units (h : Pending (l :: ls) st) (hempty : st.set.hasEmptyClause = false)
    (hvalue : st.assigned.get? l.atom ≠ some l.asserted) : l ∈ st.set.units := by
  rcases h l List.mem_cons_self with htrue | hunit | hfalsified
  · exact absurd (makesTrue_iff.mp htrue) hvalue
  · exact hunit
  · exact absurd hfalsified (Bool.eq_false_iff.mp hempty)

/-- The atom of a literal that is about to be propagated has no value. -/
theorem Pending.get?_eq_none (h : Pending (l :: ls) st) (hsep : st.Separate)
    (hempty : st.set.hasEmptyClause = false)
    (hvalue : st.assigned.get? l.atom ≠ some l.asserted) : st.assigned.get? l.atom = none :=
  hsep l (ClauseSet.mem_literals_of_mem_units (h.mem_units hempty hvalue))

/-- A round assumes as many literals of its list as it counts. -/
theorem propagateRound_reaches (hsep : st.Separate) (hpending : Pending ls st) :
    ∃ path, path.Sublist ls ∧ path.length = (propagateRound ls st).2 ∧
      Reaches st path (propagateRound ls st).1 := by
  fun_induction propagateRound ls st with
  | case1 st => exact ⟨[], List.Sublist.refl _, rfl, .refl st⟩
  | case2 l ls st => exact ⟨[], List.nil_sublist _, rfl, .refl st⟩
  | case3 l ls st _ _ ih =>
    obtain ⟨path, hsub, hlen, hreach⟩ := ih hsep hpending.tail
    exact ⟨path, hsub.cons l, hlen, hreach⟩
  | case4 l ls st hempty hvalue next ih =>
    have hfresh := hpending.get?_eq_none hsep (Bool.eq_false_iff.mpr hempty) hvalue
    obtain ⟨path, hsub, hlen, hreach⟩ := ih (hsep.assume l) (hpending.tail.assume hfresh)
    exact ⟨l :: path, hsub.cons_cons l, by simp [hlen, next], .step hfresh hreach⟩

theorem Separate.propagateRound (hsep : st.Separate) :
    (propagateRound st.set.units st).1.Separate := by
  obtain ⟨_, -, -, hreach⟩ := propagateRound_reaches hsep st.pending_units
  exact hreach.separate hsep

theorem propagate_reaches (hsep : st.Separate) (h : st.propagate.1 = some st') :
    ∃ path, path.length = st.propagate.2 ∧ Reaches st path st' := by
  fun_induction propagate st with
  | case1 =>
    cases h
    exact ⟨[], rfl, .refl _⟩
  | case2 => cases h
  | case3 st _ next _ _ rest ih =>
    obtain ⟨path, -, hlen, hround⟩ := propagateRound_reaches hsep (pending_units st)
    obtain ⟨path', hlen', hreach⟩ := ih (hround.separate hsep) h
    exact ⟨path ++ path', by simp [hlen, hlen', next, rest], hround.trans hreach⟩
  | case4 st =>
    cases h
    obtain ⟨path, -, hlen, hreach⟩ := propagateRound_reaches hsep (pending_units st)
    exact ⟨path, hlen, hreach⟩

/-- A round does nothing once a clause is falsified. -/
theorem propagateRound_of_hasEmptyClause (h : st.set.hasEmptyClause = true) (ls : List Literal) :
    propagateRound ls st = (st, 0) := by
  cases ls with
  | nil => rfl
  | cons l ls => rw [propagateRound, if_pos h]

/-- A round with units before it that does not end in a conflict makes the set lighter. -/
theorem weight_propagateRound_lt (hsep : st.Separate) (hunits : ¬ st.set.units.isEmpty = true)
    (hnext : ¬ (propagateRound st.set.units st).1.set.hasEmptyClause = true) :
    (propagateRound st.set.units st).1.set.weight < st.set.weight := by
  have hempty : ¬ st.set.hasEmptyClause = true := by
    intro h
    rw [propagateRound_of_hasEmptyClause h] at hnext
    exact hnext h
  cases hlist : st.set.units with
  | nil => simp [hlist] at hunits
  | cons l ls =>
    have hl : l ∈ st.set.literals := ClauseSet.mem_literals_of_mem_units (by simp [hlist])
    have hvalue : st.assigned.get? l.atom ≠ some l.asserted := by simp [hsep l hl]
    rw [propagateRound, if_neg hempty, if_neg hvalue]
    exact Nat.lt_of_le_of_lt (weight_propagateRound_le ls (st.assume l))
      (ClauseSet.weight_restrict_lt hl rfl)

/-- Where no atom of the set has a value, propagation goes on until no unit is left or a clause is
falsified. -/
theorem propagate_eq (hsep : st.Separate) :
    st.propagate =
      if st.set.units.isEmpty then (some st, 0)
      else
        let next := propagateRound st.set.units st
        if next.1.set.hasEmptyClause then (none, next.2)
        else (next.1.propagate.1, next.2 + next.1.propagate.2) := by
  rw [propagate]
  by_cases hunits : st.set.units.isEmpty = true
  · rw [if_pos hunits, if_pos hunits]
  · rw [if_neg hunits, if_neg hunits]
    by_cases hnext : (propagateRound st.set.units st).1.set.hasEmptyClause = true
    · simp only [hnext, if_true]
    · have hlt := weight_propagateRound_lt hsep hunits hnext
      simp only [hnext, hlt, if_true, if_false, Bool.false_eq_true]

/-- Propagation that ends without a conflict leaves no falsified clause behind. -/
theorem hasEmptyClause_propagate (hempty : st.set.hasEmptyClause = false)
    (h : st.propagate.1 = some st') : st'.set.hasEmptyClause = false := by
  fun_induction propagate st with
  | case1 =>
    cases h
    exact hempty
  | case2 => cases h
  | case3 st _ next hnext _ rest ih => exact ih (Bool.eq_false_iff.mpr hnext) h
  | case4 st _ next hnext =>
    cases h
    exact Bool.eq_false_iff.mpr hnext

/-- A round that propagates true literals keeps every model. -/
theorem satisfies_propagateRound (hls : ∀ l ∈ ls, i.makesTrue l = true)
    (h : i.satisfies st.set = true) : i.satisfies (propagateRound ls st).1.set = true := by
  fun_induction propagateRound ls st with
  | case1 => exact h
  | case2 => exact h
  | case3 l ls st _ _ ih => exact ih (List.forall_mem_cons.mp hls).2 h
  | case4 l ls st _ _ next ih =>
    obtain ⟨hl, hrest⟩ := List.forall_mem_cons.mp hls
    exact ih hrest ((Interpretation.satisfies_restrict_iff hl).mpr h)

/-- A satisfiable set survives unit propagation with all its models. -/
theorem satisfies_propagate (h : i.satisfies st.set = true) :
    ∃ st', st.propagate.1 = some st' ∧ i.satisfies st'.set = true := by
  fun_induction propagate st with
  | case1 st => exact ⟨st, rfl, h⟩
  | case2 st _ next hempty =>
    have hnext := satisfies_propagateRound (fun _ => Interpretation.makesTrue_of_mem_units h) h
    rw [Interpretation.not_satisfies_of_hasEmptyClause hempty] at hnext
    cases hnext
  | case3 st _ next _ _ rest ih =>
    exact ih (satisfies_propagateRound (fun _ => Interpretation.makesTrue_of_mem_units h) h)
  | case4 st _ next =>
    exact ⟨_, rfl, satisfies_propagateRound (fun _ => Interpretation.makesTrue_of_mem_units h) h⟩

/-! ### Pure literals -/

theorem Separate.unsettled_pureLiterals (hsep : st.Separate) :
    st.assigned.Unsettled st.set.pureLiterals :=
  ⟨fun l hl => hsep l (ClauseSet.mem_pureLiterals.mp hl).1, st.set.nodup_pureLiterals_atoms⟩

theorem assumePure_reaches (hsep : st.Separate) :
    Reaches st st.set.pureLiterals st.assumePure :=
  reaches_assumeAll hsep.unsettled_pureLiterals

theorem set_assumeAll (st : State) (ls : List Literal) :
    (st.assumeAll ls).set = st.set.restrictAll ls := by
  induction ls generalizing st with
  | nil => rfl
  | cons l ls ih => exact ih (st.assume l)

theorem assigned_assumeAll (st : State) (ls : List Literal) :
    (st.assumeAll ls).assigned = st.assigned.assumeAll ls := by
  induction ls generalizing st with
  | nil => rfl
  | cons l ls ih => exact ih (st.assume l)

/-- The elimination of pure literals keeps exactly the clauses without a pure literal. -/
theorem clauses_assumePure (st : State) :
    st.assumePure.set.clauses =
      st.set.clauses.filter (fun c => ∀ l ∈ st.set.pureLiterals, l ∉ c) := by
  rw [assumePure, set_assumeAll]
  exact ClauseSet.clauses_restrictAll_of_pure fun l hl => (ClauseSet.mem_pureLiterals.mp hl).2

/-- The elimination of pure literals keeps the empty clauses and makes no new ones. -/
theorem hasEmptyClause_assumePure (st : State) :
    st.assumePure.set.hasEmptyClause = st.set.hasEmptyClause := by
  rw [Bool.eq_iff_iff, ClauseSet.hasEmptyClause_iff, ClauseSet.hasEmptyClause_iff,
    clauses_assumePure]
  constructor
  · rintro ⟨c, hc, hnone⟩
    exact ⟨c, List.mem_of_mem_filter hc, hnone⟩
  · rintro ⟨c, hc, hnone⟩
    exact ⟨c, List.mem_filter.mpr ⟨hc, decide_eq_true fun l _ => hnone l⟩, hnone⟩

theorem satisfies_assumePure (h : i.satisfies st.set = true) :
    i.satisfies st.assumePure.set = true := by
  rw [Interpretation.satisfies_iff] at h ⊢
  intro c hc
  rw [clauses_assumePure] at hc
  exact h c (List.mem_of_mem_filter hc)

end Clausal.Dpll.State
