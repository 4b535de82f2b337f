import Mathlib
import Clausal.Proofs.Dpll.Counters
import Clausal.Proofs.Dpll.Path

/-! # The outcome of a search and its paths

A run has a model exactly if a path from its entry leads to one (`State.run_model_iff`).  From the
run to the path, one piece is built for each loop; and if the run meets no conflict, its counters
are the tally of the path (`State.exists_path_of_model`).  From the path to the run, what the search
finds after a step it finds before (`Step.outcome`).

No path assumes an atom that has a value, so a run without a conflict counts at most as many
assumptions as the set has atoms (`assumptions_are_fresh`). -/

namespace Clausal.Dpll

/-! ### The path of a run with a model -/

/-- What a search counts of the assumptions of a path. -/
def tally (trace : List Assumption) : Stats where
  decisions := trace.countP (·.reason = .decision)
  propagations := trace.countP (·.reason = .unit)
  pureLiterals := trace.countP (·.reason = .pure)
  conflicts := 0

theorem tally_append (trace trace' : List Assumption) :
    tally (trace ++ trace') = tally trace + tally trace' := by
  simp only [tally, List.countP_append]
  rfl

theorem tally_le_length (trace : List Assumption) :
    (tally trace).propagations + (tally trace).pureLiterals + (tally trace).decisions ≤
      trace.length := by
  induction trace with
  | nil => exact Nat.le_refl _
  | cons a trace ih =>
    simp only [tally, List.countP_cons, List.length_cons] at ih ⊢
    cases a.reason <;> simp <;> omega

namespace State

variable {st simple : State} {ls : List Literal} {work : Stats} {i : Interpretation}

theorem exists_path_round (hnext : (propagateRound ls st).1.set.hasEmptyClause = false) :
    ∃ path : List Literal, path.length = (propagateRound ls st).2 ∧
      Path (.round ls st) (path.map (⟨.unit, ·⟩)) (.round [] (propagateRound ls st).1) := by
  fun_induction propagateRound ls st with
  | case1 st => exact ⟨[], rfl, .refl _⟩
  | case2 l ls st hempty =>
    rw [hempty] at hnext
    cases hnext
  | case3 l ls st hempty hvalue ih =>
    obtain ⟨path, hlen, hpath⟩ := ih hnext
    exact ⟨path, hlen, .step (.skip (Bool.eq_false_iff.mpr hempty) hvalue) hpath⟩
  | case4 l ls st hempty hvalue next ih =>
    obtain ⟨path, hlen, hpath⟩ := ih hnext
    exact ⟨l :: path, by simp [hlen, next],
      .step (.unit (Bool.eq_false_iff.mpr hempty) hvalue) hpath⟩

theorem exists_path_propagate (hsep : st.Separate) (h : st.propagate.1 = some simple) :
    ∃ path : List Literal, path.length = st.propagate.2 ∧
      Path (.loop st) (path.map (⟨.unit, ·⟩)) (.purge simple.set.pureLiterals simple) := by
  fun_induction propagate st with
  | case1 st hunits =>
    cases h
    exact ⟨[], rfl, .single (.fixpoint (List.isEmpty_iff.mp hunits))⟩
  | case2 => cases h
  | case3 st hunits next hnext hlt rest ih =>
    have hnext := Bool.eq_false_iff.mpr hnext
    obtain ⟨path, hlen, hround⟩ := exists_path_round hnext
    obtain ⟨path', hlen', hrest⟩ := ih hsep.propagateRound h
    refine ⟨path ++ path', by simp [hlen, hlen', next, rest], ?_⟩
    rw [List.map_append]
    have hloop := hround.trans (.step (.again hnext) hrest)
    exact .step (.begin (mt List.isEmpty_iff.mpr hunits)) hloop
  | case4 st hunits next hnext hge =>
    exact absurd (weight_propagateRound_lt hsep hunits hnext) hge

theorem path_purge (ls : List Literal) (st : State) :
    Path (.purge ls st) (ls.map (⟨.pure, ·⟩)) (.branch (st.assumeAll ls)) := by
  induction ls generalizing st with
  | nil => exact .single (.choose st)
  | cons l ls ih => exact .step (.pure l ls st) (ih (st.assume l))

theorem path_closing (ls : List Literal) (st : State) :
    Path (.closing ls st) (ls.map (⟨.closing, ·⟩))
      (.closing [] ⟨st.set, st.assigned.assumeAll ls⟩) := by
  induction ls generalizing st with
  | nil => exact .refl _
  | cons l ls ih => exact .step (.closeUnit l ls st) (ih ⟨st.set, st.assigned.assume l⟩)

theorem exists_path_simplify (hsep : st.Separate) (hempty : ¬ st.set.hasEmptyClause = true)
    (hunits : st.set.consistentUnits? = none) (h : st.simplify = (some simple, work)) :
    ∃ trace, tally trace = work ∧ Path (.entry st) trace (.branch simple) := by
  unfold simplify at h
  split at h
  · cases h
  · next mid count hmid =>
    cases h
    obtain ⟨path, hlen, hpath⟩ := exists_path_propagate hsep (congrArg Prod.fst hmid)
    rw [hmid] at hlen
    have hentry : Step (.entry st) none (.loop st) := .simplify (Bool.eq_false_iff.mpr hempty) hunits
    refine ⟨_, ?_, .step hentry (hpath.trans (path_purge _ mid))⟩
    simp [tally, List.countP_append, List.countP_map, Function.comp_def, hlen]

/-- A run with a model takes a path to it, and without a conflict it does nothing else. -/
theorem exists_path_of_model (hsep : st.Separate) (h : st.run.model = some i) :
    ∃ trace p, Path (.entry st) trace p ∧ p.model? = some i ∧
      (st.run.stats.conflicts = 0 → st.run.stats = tally trace) := by
  fun_induction run st with
  | case1 => cases h
  | case2 st hempty ls hunits =>
    cases h
    have hentry : Step (.entry st) none (.closing ls st) :=
      .close (Bool.eq_false_iff.mpr hempty) hunits
    refine ⟨_, _, .step hentry (path_closing ls st), rfl, fun _ => ?_⟩
    simp [tally, List.countP_map, Function.comp_def, Stats.zero]
  | case3 => cases h
  | case4 st hempty hunits simple work hsimple hfirst =>
    cases h
    obtain ⟨trace, htally, hpath⟩ := exists_path_simplify hsep hempty hunits hsimple
    exact ⟨trace, _, hpath, if_pos hfirst, fun _ => htally.symm⟩
  | case5 st hempty hunits simple work hsimple l hfirst left j hleft ih =>
    have hsep' := hsep.simplify (congrArg Prod.fst hsimple)
    obtain ⟨trace, htally, hpath⟩ := exists_path_simplify hsep hempty hunits hsimple
    obtain ⟨trace', p, hpath', hmodel, hstats⟩ := ih (hsep'.assume l) (hleft.trans h)
    refine ⟨_, p, hpath.trans (.step (.first hfirst) hpath'), hmodel, fun hconflicts => ?_⟩
    have hleftConflicts : left.stats.conflicts = 0 := (Nat.add_eq_zero_iff.mp hconflicts).2
    rw [← List.append_assoc, tally_append, tally_append, htally, ← hstats hleftConflicts]
    rfl
  | case6 st hempty hunits simple work hsimple l hfirst left hleft right _ ihRight =>
    have hsep' := hsep.simplify (congrArg Prod.fst hsimple)
    obtain ⟨trace, -, hpath⟩ := exists_path_simplify hsep hempty hunits hsimple
    obtain ⟨trace', p, hpath', hmodel, -⟩ := ihRight (hsep'.assume l.neg) h
    refine ⟨_, p, hpath.trans (.step (.second hfirst hleft) hpath'), hmodel, fun hconflicts => ?_⟩
    have hleftConflicts : left.stats.conflicts = left.stats.decisions + 1 :=
      (run_countsTree (simple.assume l)).of_none hleft
    simp only [Stats.conflicts_add] at hconflicts
    omega

/-! ### What the search finds from a point on -/

theorem simplify_fst (st : State) : st.simplify.1 = st.propagate.1.map assumePure := by
  unfold simplify
  split <;> next h => rw [h]; rfl

/-- The model that the search finds by branching on the state, if it finds one. -/
def branchModel (st : State) : Option Interpretation :=
  match st.set.first? with
  | none => some st.assigned
  | some l => (st.assume l).run.model <|> (st.assume l.neg).run.model

theorem branchModel_of_first? {l : Literal} (h : st.set.first? = some l) :
    st.branchModel = ((st.assume l).run.model <|> (st.assume l.neg).run.model) := by
  rw [branchModel, h]

/-- The model that the search finds from unit propagation on, if it finds one. -/
def loopModel (st : State) : Option Interpretation := st.simplify.1.bind branchModel

theorem model_branch (st : State) (work : Stats) : (st.branch work).model = st.branchModel := by
  unfold branch branchModel
  cases st.set.first? with
  | none => rfl
  | some l => cases h : (st.assume l).run.model <;> simp [h]

theorem model_run (hempty : st.set.hasEmptyClause = false)
    (hunits : st.set.consistentUnits? = none) : st.run.model = st.loopModel := by
  rw [run_eq hempty hunits, loopModel]
  split
  · next h => rw [h]; rfl
  · next simple work h =>
    rw [h]
    exact simple.model_branch work

end State

namespace Point

variable {p q : Point} {a : Option Assumption} {trace : List Assumption} {i : Interpretation}

/-- The model that the search finds from a point on, if it finds one. -/
def outcome : Point → Option Interpretation
  | entry st => st.run.model
  | closing ls st => some (st.assigned.assumeAll ls)
  | loop st => st.loopModel
  | round ls st =>
    let next := (State.propagateRound ls st).1
    if next.set.hasEmptyClause then none else next.loopModel
  | purge ls st => (st.assumeAll ls).branchModel
  | branch st => st.branchModel

theorem outcome_of_model? (h : p.model? = some i) : p.outcome = some i := by
  cases p with
  | closing ls st =>
    cases ls with
    | nil => exact h
    | cons => cases h
  | branch st =>
    simp only [model?] at h
    split at h
    · next hfirst =>
      rw [outcome, State.branchModel, hfirst]
      exact h
    · cases h
  | entry | loop | round | purge => cases h

end Point

variable {p q : Point} {a : Option Assumption} {trace : List Assumption} {i : Interpretation}

/-- What the search finds after a step it finds before. -/
theorem Step.outcome (h : Step p a q) (hp : p.Sound) (hq : q.outcome = some i) :
    p.outcome = some i := by
  cases h with
  | @close st ls hempty hunits =>
    show st.run.model = some i
    rw [State.run, if_neg (Bool.eq_false_iff.mp hempty), hunits]
    exact hq
  | closeUnit => exact hq
  | simplify hempty hunits => exact (State.model_run hempty hunits).trans hq
  | @begin st hunits =>
    have hunits : st.set.units.isEmpty ≠ true := mt List.isEmpty_iff.mp hunits
    show st.simplify.1.bind State.branchModel = some i
    rw [State.simplify_fst, State.propagate_eq hp, if_neg hunits]
    simp only [Point.outcome, State.loopModel, State.simplify_fst] at hq
    split at hq
    · cases hq
    · next hnext =>
      simp only [hnext, if_false, Bool.false_eq_true]
      exact hq
  | skip hempty hvalue =>
    rw [Point.outcome, State.propagateRound, if_neg (Bool.eq_false_iff.mp hempty), if_pos hvalue]
    exact hq
  | unit hempty hvalue =>
    rw [Point.outcome, State.propagateRound, if_neg (Bool.eq_false_iff.mp hempty), if_neg hvalue]
    exact hq
  | @again st hempty =>
    show (if st.set.hasEmptyClause then none else st.loopModel) = some i
    rw [if_neg (Bool.eq_false_iff.mp hempty)]
    exact hq
  | @fixpoint st hunits =>
    show st.simplify.1.bind State.branchModel = some i
    rw [State.simplify_fst, State.propagate, if_pos (List.isEmpty_iff.mpr hunits)]
    exact hq
  | pure => exact hq
  | choose => exact hq
  | first hfirst =>
    have hleft : (State.assume _ _).run.model = some i := hq
    rw [Point.outcome, State.branchModel_of_first? hfirst, hleft]
    rfl
  | second hfirst hfailed =>
    rw [Point.outcome, State.branchModel_of_first? hfirst, hfailed]
    exact hq

theorem Path.outcome (h : Path p trace q) (hp : p.Sound) (hq : q.outcome = some i) :
    p.outcome = some i := by
  induction h with
  | refl => exact hq
  | step hstep _ ih => exact hstep.outcome hp (ih (hstep.sound hp) hq)

/-- A run has a model exactly if a path from its entry leads to the model. -/
theorem State.run_model_iff {st : State} (hsep : st.Separate) :
    st.run.model = some i ↔ ∃ trace p, Path (.entry st) trace p ∧ p.model? = some i := by
  constructor
  · intro h
    obtain ⟨trace, p, hpath, hmodel, -⟩ := exists_path_of_model hsep h
    exact ⟨trace, p, hpath, hmodel⟩
  · rintro ⟨trace, p, hpath, hmodel⟩
    exact hpath.outcome hsep (Point.outcome_of_model? hmodel)

/-- At each point of a search that still simplifies its set no atom of the set has a value, each
assumption is about an atom without a value, and later points keep all values.  The paths of a
search lead to the model that its run finds and to no other, and without a conflict the search
counts at most as many assumptions as there are atoms. -/
theorem assumptions_are_fresh (s : ClauseSet) :
    (∀ trace p, Path (.entry (.initial s)) trace p →
      (¬ p.IsClosing → ∀ l ∈ p.state.set.literals, p.state.assigned.get? l.atom = none) ∧
      (∀ a q, Step p (some a) q → p.state.assigned.get? a.literal.atom = none) ∧
      ∀ trace' q, Path p trace' q → q.state.assigned.Extends p.state.assigned) ∧
    (∀ i, (State.initial s).run.model = some i ↔
      ∃ trace p, Path (.entry (.initial s)) trace p ∧ p.model? = some i) ∧
    ((solve s).stats.conflicts = 0 →
      (solve s).stats.propagations + (solve s).stats.pureLiterals + (solve s).stats.decisions ≤
        s.atoms.size) := by
  have hsep := State.separate_initial s
  refine ⟨fun trace p hpath => ?_, fun i => State.run_model_iff hsep, fun hconflicts => ?_⟩
  · have hp : p.Sound := hpath.sound hsep
    exact ⟨hp.separate, fun a q hstep => hstep.get?_eq_none hp,
      fun trace' q hpath' => hpath'.extends_assigned hp⟩
  · cases hmodel : (State.initial s).run.model with
    | none =>
      have hcount : (solve s).stats.conflicts = (solve s).stats.decisions + 1 :=
        (State.run_countsTree (State.initial s)).of_none hmodel
      omega
    | some i =>
      obtain ⟨trace, p, hpath, -, hstats⟩ := State.exists_path_of_model hsep hmodel
      have htally : (solve s).stats = tally trace := hstats hconflicts
      rw [htally]
      exact (tally_le_length trace).trans hpath.length_le

end Clausal.Dpll
