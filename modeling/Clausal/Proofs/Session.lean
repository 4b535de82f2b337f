import Mathlib
import Clausal.Session
import Clausal.Proofs.Algorithm

/-! # Sessions keep no answers

Whatever a session has decided before, it answers the next clause set like a new one
(`Session.solve_answer`), and the answer fits the result of that call (`Session.shows_solve`).  All
that it keeps are its counts, to which each call adds what a new session counts for it
(`Session.counts_solve`), so that in the end they are a sum over all calls
(`Session.counts_solveAll`). -/

namespace Clausal

/-! ### Adding up work -/

instance : Zero Dpll.Stats := ⟨.zero⟩

instance : AddMonoid Dpll.Stats where
  add_assoc s t u := by
    show Dpll.Stats.mk _ _ _ _ = Dpll.Stats.mk _ _ _ _
    congr 1 <;> exact Nat.add_assoc _ _ _
  zero_add s := by
    show Dpll.Stats.mk _ _ _ _ = s
    congr 1 <;> exact Nat.zero_add _
  add_zero s := rfl
  nsmul := nsmulRec

instance : Zero Work := ⟨.zero⟩

instance : AddMonoid Work where
  add_assoc a b c := congrArg₂ Work.mk (Nat.add_assoc _ _ _) (add_assoc a.search b.search c.search)
  zero_add a := congrArg₂ Work.mk (Nat.zero_add _) (zero_add a.search)
  add_zero _ := rfl
  nsmul := nsmulRec

namespace Session

variable {session : Session} {s : ClauseSet}

/-- The session after calls on the clause sets in turn. -/
def solveAll (session : Session) (sets : List ClauseSet) : Session :=
  sets.foldl (fun session s => (session.solve s).1) session

/-- The number of calls, and their work. -/
def counts (session : Session) : ℕ × Work := (session.calls, session.work)

/-! ### One call -/

theorem solve_of_ok (session : Session) {answer : Answer} {work : Work}
    (h : session.algorithm.run s = .ok (answer, work)) :
    session.solve s = (⟨session.algorithm, answer, session.calls + 1, session.work + work⟩,
      .ok answer.isSat) := by
  rw [solve, h]

theorem solve_of_error (session : Session) {e : CapacityExceeded}
    (h : session.algorithm.run s = .error e) :
    session.solve s =
      (⟨session.algorithm, Answer.noModel, session.calls + 1, session.work⟩, .error e) := by
  rw [solve, h]

theorem algorithm_solve (session : Session) (s : ClauseSet) :
    (session.solve s).1.algorithm = session.algorithm := by
  cases h : session.algorithm.run s with
  | ok found => rw [session.solve_of_ok h]
  | error e => rw [session.solve_of_error h]

/-- A session answers like a new one. -/
theorem solve_answer (session : Session) (s : ClauseSet) :
    (session.solve s).2 = ((new session.algorithm).solve s).2 ∧
      (session.solve s).1.answer = ((new session.algorithm).solve s).1.answer := by
  cases h : session.algorithm.run s with
  | ok found =>
    rw [session.solve_of_ok h, (new session.algorithm).solve_of_ok h]
    exact ⟨rfl, rfl⟩
  | error e =>
    rw [session.solve_of_error h, (new session.algorithm).solve_of_error h]
    exact ⟨rfl, rfl⟩

/-- A call adds what a new session counts for it. -/
theorem counts_solve (session : Session) (s : ClauseSet) :
    (session.solve s).1.counts =
      session.counts + ((new session.algorithm).solve s).1.counts := by
  cases h : session.algorithm.run s with
  | ok found =>
    rw [session.solve_of_ok h, (new session.algorithm).solve_of_ok h]
    exact Prod.ext rfl (congrArg (session.work + ·) (zero_add found.2).symm)
  | error e =>
    rw [session.solve_of_error h, (new session.algorithm).solve_of_error h]
    exact Prod.ext rfl (add_zero session.work).symm

/-- A call that fails is counted without any work. -/
theorem counts_solve_of_error {a : Algorithm} {e : CapacityExceeded}
    (h : ((new a).solve s).2 = .error e) : ((new a).solve s).1.counts = (1, 0) := by
  cases hrun : a.run s with
  | ok found =>
    rw [(new a).solve_of_ok hrun] at h
    cases h
  | error e =>
    rw [(new a).solve_of_error hrun]
    rfl

/-! ### Many calls -/

theorem solveAll_cons (session : Session) (s : ClauseSet) (sets : List ClauseSet) :
    session.solveAll (s :: sets) = (session.solve s).1.solveAll sets := rfl

theorem solveAll_append (session : Session) (sets more : List ClauseSet) :
    session.solveAll (sets ++ more) = (session.solveAll sets).solveAll more :=
  List.foldl_append

theorem algorithm_solveAll (session : Session) (sets : List ClauseSet) :
    (session.solveAll sets).algorithm = session.algorithm := by
  induction sets generalizing session with
  | nil => rfl
  | cons s sets ih => rw [solveAll_cons, ih, algorithm_solve]

theorem counts_solveAll (session : Session) (sets : List ClauseSet) :
    (session.solveAll sets).counts =
      session.counts + (sets.map fun s => ((new session.algorithm).solve s).1.counts).sum := by
  induction sets generalizing session with
  | nil => exact (add_zero session.counts).symm
  | cons s sets ih =>
    rw [solveAll_cons, ih, algorithm_solve, counts_solve, List.map_cons, List.sum_cons, add_assoc]

/-! ### What an answer shows -/

/-- The answer shows a model over the atoms of the clause set exactly if the result of the call is
that there is one, and its vector exactly if they fit into one. -/
structure Shows (s : ClauseSet) (result : Except CapacityExceeded Bool) (answer : Answer) :
    Prop where
  model_iff : answer.model.isSome = true ↔ result = .ok true
  value_iff : ∀ a, (answer.value? a).isSome = true ↔ result = .ok true ∧ a ∈ s.atoms
  vector_iff : answer.vector.isSome = true ↔ result = .ok true ∧ s.atoms.size ≤ 31
  model_of_vector : ∀ v, answer.vector = some v →
    answer.model = some (Interpretation.ofVector s.atoms v)

theorem shows_noModel {result : Except CapacityExceeded Bool} (h : result ≠ .ok true) :
    Shows s result Answer.noModel where
  model_iff := iff_of_false (by decide) h
  value_iff _ := iff_of_false Bool.false_ne_true fun hsat => h hsat.1
  vector_iff := iff_of_false (by decide) fun hsat => h hsat.1
  model_of_vector _ hv := by cases hv

theorem shows_of_decides {answer : Answer} (h : answer.Decides s) :
    Shows s (.ok answer.isSat) answer := by
  cases h with
  | unsat _ => exact shows_noModel (by decide)
  | @sat i hatoms _ =>
    have hvalue : ∀ a, (i.get? a).isSome = true ↔ a ∈ s.atoms := by
      intro a
      rw [Interpretation.isSome_get?_iff, hatoms]
    rcases Nat.lt_or_ge 31 s.atoms.size with hlarge | hsmall
    · rw [Interpretation.encode_eq_error hlarge]
      refine ⟨iff_of_true rfl rfl, fun a => (hvalue a).trans (and_iff_right rfl).symm, ?_, ?_⟩
      · exact iff_of_false Bool.false_ne_true fun hsat => hlarge.not_ge hsat.2
      · rintro v ⟨⟩
    · rw [Interpretation.encode_eq_ok hsmall]
      refine ⟨iff_of_true rfl rfl, fun a => (hvalue a).trans (and_iff_right rfl).symm, ?_, ?_⟩
      · exact iff_of_true rfl ⟨rfl, hsmall⟩
      · intro v hv
        obtain rfl : i.vectorOver s.atoms = v := Option.some.inj hv
        rw [← hatoms, Interpretation.ofVector_vectorOver]

theorem shows_solve (a : Algorithm) (s : ClauseSet) :
    Shows s ((new a).solve s).2 ((new a).solve s).1.answer := by
  obtain ⟨-, -, hrun⟩ | ⟨-, answer, work, hrun, hdecides⟩ := a.run_cases s
  · rw [(new a).solve_of_error hrun]
    exact shows_noModel (by simp)
  · rw [(new a).solve_of_ok hrun]
    exact shows_of_decides hdecides

/-- After any calls a session decides a clause set like a new one, shows what belongs to this
result only, and has counted what new sessions count for each of the calls. -/
theorem solve_after_calls (a : Algorithm) (earlier : List ClauseSet) (s : ClauseSet) :
    let used := ((new a).solveAll earlier).solve s
    let fresh := (new a).solve s
    used.2 = fresh.2 ∧ used.1.answer = fresh.1.answer ∧ Shows s used.2 used.1.answer ∧
      used.1.counts = ((earlier ++ [s]).map fun t => ((new a).solve t).1.counts).sum ∧
      ∀ e, fresh.2 = .error e → fresh.1.counts = (1, 0) := by
  intro used fresh
  have halgorithm : ((new a).solveAll earlier).algorithm = a := algorithm_solveAll _ earlier
  obtain ⟨hresult, hanswer⟩ := solve_answer ((new a).solveAll earlier) s
  rw [halgorithm] at hresult hanswer
  refine ⟨hresult, hanswer, ?_, ?_, fun e he => counts_solve_of_error he⟩
  · rw [hresult, hanswer]
    exact shows_solve a s
  · have hcalls : used.1 = (new a).solveAll (earlier ++ [s]) := by
      rw [solveAll_append]
      rfl
    rw [hcalls, counts_solveAll]
    exact zero_add _

end Session
end Clausal
