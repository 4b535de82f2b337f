import Mathlib
import Clausal.Proofs.Dpll.Correctness

/-! # Paths of a search

A search passes *points*: the entry of a run, each turn of each of its loops, and the branching at
its end.  A `Step` leads from one point to the next and may make an assumption; the two steps from a
branching are the calls of the search on its branches, the second only after the first has failed.
A `Path` is a sequence of steps with its trace of assumptions, which explains all values at its end
(`Path.assigned`).

On a path no atom of the current set has a value (`Path.sound`), each assumption is about an atom
without one (`Step.get?_eq_none`) and none is ever overwritten (`Path.extends_assigned`); so a path
is at most as long as there are atoms (`Path.length_le`). -/

namespace Clausal.Dpll

/-! ### Points and steps -/

/-- A point that a search passes. -/
inductive Point
  /-- A run begins. -/
  | entry (st : State)
  /-- The set is one of consistent units, and these of them are still to be assumed. -/
  | closing (ls : List Literal) (st : State)
  /-- Unit propagation is about to collect the units. -/
  | loop (st : State)
  /-- A round of unit propagation has these units still before it. -/
  | round (ls : List Literal) (st : State)
  /-- These pure literals are still to be assumed. -/
  | purge (ls : List Literal) (st : State)
  /-- A literal is to be chosen. -/
  | branch (st : State)

/-- Why a literal is assumed. -/
inductive Reason
  | unit
  | pure
  | decision
  | closing
deriving DecidableEq

/-- A literal that is assumed, and why. -/
structure Assumption where
  reason : Reason
  literal : Literal
deriving DecidableEq

/-- A search goes from one point to the next, and in some steps it assumes a literal. -/
inductive Step : Point → Option Assumption → Point → Prop
  | close {st : State} {ls : List Literal} (hempty : st.set.hasEmptyClause = false)
      (hunits : st.set.consistentUnits? = some ls) : Step (.entry st) none (.closing ls st)
  | closeUnit (l : Literal) (ls : List Literal) (st : State) :
      Step (.closing (l :: ls) st) (some ⟨.closing, l⟩) (.closing ls ⟨st.set, st.assigned.assume l⟩)
  | simplify {st : State} (hempty : st.set.hasEmptyClause = false)
      (hunits : st.set.consistentUnits? = none) : Step (.entry st) none (.loop st)
  | begin {st : State} (hunits : st.set.units ≠ []) :
      Step (.loop st) none (.round st.set.units st)
  | skip {l : Literal} {ls : List Literal} {st : State} (hempty : st.set.hasEmptyClause = false)
      (hvalue : st.assigned.get? l.atom = some l.asserted) :
      Step (.round (l :: ls) st) none (.round ls st)
  | unit {l : Literal} {ls : List Literal} {st : State} (hempty : st.set.hasEmptyClause = false)
      (hvalue : st.assigned.get? l.atom ≠ some l.asserted) :
      Step (.round (l :: ls) st) (some ⟨.unit, l⟩) (.round ls (st.assume l))
  | again {st : State} (hempty : st.set.hasEmptyClause = false) :
      Step (.round [] st) none (.loop st)
  | fixpoint {st : State} (hunits : st.set.units = []) :
      Step (.loop st) none (.purge st.set.pureLiterals st)
  | pure (l : Literal) (ls : List Literal) (st : State) :
      Step (.purge (l :: ls) st) (some ⟨.pure, l⟩) (.purge ls (st.assume l))
  | choose (st : State) : Step (.purge [] st) none (.branch st)
  | first {l : Literal} {st : State} (hfirst : st.set.first? = some l) :
      Step (.branch st) (some ⟨.decision, l⟩) (.entry (st.assume l))
  | second {l : Literal} {st : State} (hfirst : st.set.first? = some l)
      (hfailed : (st.assume l).run.model = none) :
      Step (.branch st) (some ⟨.decision, l.neg⟩) (.entry (st.assume l.neg))

/-- Steps in a row, with the assumptions that they make. -/
inductive Path : Point → List Assumption → Point → Prop
  | refl (p : Point) : Path p [] p
  | step {p q r : Point} {a : Option Assumption} {trace : List Assumption} :
      Step p a q → Path q trace r → Path p (a.toList ++ trace) r

namespace Path

variable {p q r : Point} {trace trace' : List Assumption}

theorem trans (h : Path p trace q) (h' : Path q trace' r) : Path p (trace ++ trace') r := by
  induction h with
  | refl => exact h'
  | step hstep _ ih =>
    rw [List.append_assoc]
    exact step hstep (ih h')

theorem single {a : Option Assumption} (h : Step p a q) : Path p a.toList q := by
  have hpath := step h (refl q)
  rwa [List.append_nil] at hpath

end Path

namespace Point

/-- The state that a point is in. -/
def state : Point → State
  | entry st | closing _ st | loop st | round _ st | purge _ st | branch st => st

/-- The literals that a point may still assume: those before it and those of the set. -/
def literals : Point → List Literal
  | entry st | loop st | branch st => st.set.literals
  | closing ls st | round ls st | purge ls st => ls ++ st.set.literals

/-- The model that the search has at a point, if it ends there with one. -/
def model? : Point → Option Interpretation
  | closing [] st => some st.assigned
  | branch st => if st.set.first? = none then some st.assigned else none
  | _ => none

/-- Whether the set has been read as a model already. -/
def IsClosing : Point → Prop
  | closing _ _ => True
  | _ => False

/-- What holds at each point of a search: no atom of the set has a value, and no atom of the
literals before the point unless the search will notice it. -/
def Sound : Point → Prop
  | entry st | loop st | branch st => st.Separate
  | closing ls st => st.assigned.Unsettled ls
  | round ls st => st.Separate ∧ State.Pending ls st
  | purge ls st => st.Separate ∧ st.assigned.Unsettled ls

theorem Sound.separate {p : Point} (h : p.Sound) (hp : ¬ p.IsClosing) : p.state.Separate := by
  cases p with
  | entry st | loop st | branch st => exact h
  | round ls st | purge ls st => exact h.1
  | closing ls st => exact absurd trivial hp

end Point

/-! ### What a step preserves -/

namespace Step

variable {p q : Point} {a : Option Assumption}

theorem sound (h : Step p a q) (hp : p.Sound) : q.Sound := by
  cases h with
  | close hempty hunits => exact State.Separate.unsettled_consistentUnits hp hunits
  | closeUnit l ls st => exact (Interpretation.unsettled_cons.mp hp).2
  | simplify => exact hp
  | @begin st => exact ⟨hp, st.pending_units⟩
  | skip => exact ⟨hp.1, hp.2.tail⟩
  | @unit l ls st hempty hvalue =>
    have hfresh := hp.2.get?_eq_none hp.1 hempty hvalue
    exact ⟨hp.1.assume l, hp.2.tail.assume hfresh⟩
  | again => exact hp.1
  | fixpoint => exact ⟨hp, State.Separate.unsettled_pureLiterals hp⟩
  | pure l ls st => exact ⟨hp.1.assume l, (Interpretation.unsettled_cons.mp hp.2).2⟩
  | choose => exact hp.1
  | first => exact State.Separate.assume hp _
  | second => exact State.Separate.assume hp _

/-- An assumption gives a value to an atom without one. -/
theorem get?_eq_none {a : Assumption} (h : Step p (some a) q) (hp : p.Sound) :
    p.state.assigned.get? a.literal.atom = none := by
  cases h with
  | closeUnit l ls st => exact (Interpretation.unsettled_cons.mp hp).1
  | unit hempty hvalue => exact hp.2.get?_eq_none hp.1 hempty hvalue
  | pure l ls st => exact (Interpretation.unsettled_cons.mp hp.2).1
  | first hfirst => exact hp _ (ClauseSet.mem_literals_of_first? hfirst)
  | @second l st hfirst => exact hp l (ClauseSet.mem_literals_of_first? hfirst)

theorem assigned (h : Step p a q) :
    q.state.assigned = p.state.assigned.assumeAll (a.toList.map (·.literal)) := by
  cases h <;> rfl

theorem extends_assigned (h : Step p a q) (hp : p.Sound) :
    q.state.assigned.Extends p.state.assigned := by
  rw [h.assigned]
  cases a with
  | none => exact Interpretation.Extends.refl _
  | some a => exact Interpretation.extends_assume (h.get?_eq_none hp)

theorem literals_subset (h : Step p a q) : q.literals ⊆ p.literals := by
  intro m hm
  cases h with
  | @close st ls hempty hunits =>
    rcases List.mem_append.mp hm with hm | hm
    · exact (State.consistentUnits?_eq_some hunits).2.1 m hm
    · exact hm
  | closeUnit => exact List.mem_cons_of_mem _ hm
  | simplify => exact hm
  | begin => exact (List.mem_append.mp hm).elim ClauseSet.mem_literals_of_mem_units id
  | skip => exact List.mem_cons_of_mem _ hm
  | unit | pure =>
    refine List.mem_cons_of_mem _ (List.mem_append.mpr ?_)
    exact (List.mem_append.mp hm).imp_right fun hm => (ClauseSet.mem_literals_restrict hm).1
  | again => exact hm
  | fixpoint =>
    exact (List.mem_append.mp hm).elim (fun hm => (ClauseSet.mem_pureLiterals.mp hm).1) id
  | choose => exact hm
  | first | second => exact (ClauseSet.mem_literals_restrict hm).1

/-- Only literals over atoms of the point are assumed. -/
theorem exists_literal {a : Assumption} (h : Step p (some a) q) :
    ∃ m ∈ p.literals, m.atom = a.literal.atom := by
  cases h with
  | closeUnit l | unit | pure l => exact ⟨_, List.mem_cons_self, rfl⟩
  | first hfirst | second hfirst => exact ⟨_, ClauseSet.mem_literals_of_first? hfirst, rfl⟩

end Step

/-! ### What a path preserves -/

namespace Path

variable {p q r : Point} {trace : List Assumption}

theorem sound (h : Path p trace q) (hp : p.Sound) : q.Sound := by
  induction h with
  | refl => exact hp
  | step hstep _ ih => exact ih (hstep.sound hp)

/-- No value is overwritten on a path. -/
theorem extends_assigned (h : Path p trace q) (hp : p.Sound) :
    q.state.assigned.Extends p.state.assigned := by
  induction h with
  | refl => exact Interpretation.Extends.refl _
  | step hstep _ ih => exact (ih (hstep.sound hp)).trans (hstep.extends_assigned hp)

/-- The assumptions of a path explain all values at its end. -/
theorem assigned (h : Path p trace q) :
    q.state.assigned = p.state.assigned.assumeAll (trace.map (·.literal)) := by
  induction h with
  | refl => rfl
  | step hstep _ ih =>
    rw [ih, hstep.assigned, List.map_append]
    exact (List.foldl_append ..).symm

/-- No atom is assumed twice on a path, and none that has a value before. -/
theorem unsettled (h : Path p trace q) (hp : p.Sound) :
    p.state.assigned.Unsettled (trace.map (·.literal)) := by
  induction h with
  | refl => exact ⟨List.forall_mem_nil _, List.nodup_nil⟩
  | @step p q r a trace hstep _ ih =>
    have hrest := ih (hstep.sound hp)
    rw [hstep.assigned] at hrest
    cases a with
    | none => exact hrest
    | some a => exact Interpretation.unsettled_cons.mpr ⟨hstep.get?_eq_none hp, hrest⟩

theorem literals_subset (h : Path p trace q) : q.literals ⊆ p.literals := by
  induction h with
  | refl => exact List.Subset.refl _
  | step hstep _ ih => exact fun _ hm => hstep.literals_subset (ih hm)

theorem exists_literal (h : Path p trace q) :
    ∀ a ∈ trace, ∃ m ∈ p.literals, m.atom = a.literal.atom := by
  induction h with
  | refl => exact List.forall_mem_nil _
  | @step p q r a trace hstep _ ih =>
    intro b hb
    rcases List.mem_append.mp hb with hb | hb
    · cases a with
      | none => cases hb
      | some a =>
        cases List.mem_singleton.mp hb
        exact hstep.exists_literal
    · obtain ⟨m, hm, hatom⟩ := ih b hb
      exact ⟨m, hstep.literals_subset hm, hatom⟩

/-- A path of the search of a set is at most as long as the set has atoms. -/
theorem length_le {s : ClauseSet} (h : Path (.entry (.initial s)) trace q) :
    trace.length ≤ s.atoms.size := by
  have hnodup := (h.unsettled (State.separate_initial s)).2
  have hsubset : (trace.map (·.literal)).map (·.atom) ⊆ s.atoms.toList := by
    intro a ha
    simp only [List.mem_map] at ha
    obtain ⟨_, ⟨b, hb, rfl⟩, rfl⟩ := ha
    obtain ⟨m, hm, hatom⟩ := h.exists_literal b hb
    exact ClauseSet.mem_atoms.mpr ⟨m, hm, hatom⟩
  have hle := (List.subperm_of_subset hnodup hsubset).length_le
  rwa [List.length_map, List.length_map] at hle

end Path

end Clausal.Dpll
