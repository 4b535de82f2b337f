import Mathlib
import Clausal.Algorithm
import Clausal.Proofs.Dpll.Correctness
import Clausal.Proofs.Enumeration.Greatest
import Clausal.Proofs.Enumeration.Refinement

/-! # All algorithms decide

The enumerations and the search with propagation give the same kind of answer: a model over
exactly the atoms of the set together with its vector, or no model of a set that nothing satisfies
(`Answer.Decides`).  Only the enumerations fail, and only beyond their capacity
(`Algorithm.run_cases`). -/

namespace Clausal

/-- The answer is right about the clause set: its model lists the atoms of the set in their order,
and its vector is the one of the model, if that has one. -/
inductive Answer.Decides (s : ClauseSet) : Answer → Prop
  | sat {i : Interpretation} : i.atoms = s.atoms → i.satisfies s = true →
    Decides s ⟨some i, (i.encode s.atoms).toOption⟩
  | unsat : ¬ s.IsSatisfiable → Decides s Answer.noModel

namespace Enumeration

variable {s : ClauseSet}

/-- Over the atoms of a set, a search that found a model or tried all vectors decides the set. -/
theorem decides_report {found : Option ℕ} {visited : ℕ} (h : s.atoms.size ≤ wordBits)
    (hfound : (s.models (Space.ofClauseSet s) = ∅ ∧ found = none) ∨
      ∃ v ∈ s.models (Space.ofClauseSet s), found = some v) :
    Answer.Decides s (Enumeration.report ⟨found, visited⟩ (Space.ofClauseSet s)).1 := by
  rcases hfound with ⟨hempty, rfl⟩ | ⟨v, ⟨hv, hsat⟩, rfl⟩
  · refine .unsat ?_
    have hatoms : ∀ a ∈ s.atoms, a ∈ (Space.ofClauseSet s).atoms := fun _ ha => ha
    rw [← ClauseSet.models_nonempty_iff hatoms]
    exact Set.not_nonempty_iff_eq_empty.mpr hempty
  · have hbits : v < 2 ^ s.atoms.size := hv
    have hvector : ((Interpretation.ofVector s.atoms v).encode s.atoms).toOption = some v := by
      rw [Interpretation.encode_eq_ok h, Interpretation.vectorOver_ofVector hbits]
      rfl
    have hdecides := Answer.Decides.sat (Interpretation.atoms_ofVector s.atoms v) hsat
    rw [hvector] at hdecides
    exact hdecides

/-- Within the capacity both searches find the same vector, a model if there is any. -/
theorem searches_find (h : s.atoms.size ≤ wordBits) :
    ∃ found plain forced,
      search s (Space.ofClauseSet s) = .ok ⟨found, plain⟩ ∧
      searchForced s (Space.ofClauseSet s) = .ok ⟨found, forced⟩ ∧
      ((s.models (Space.ofClauseSet s) = ∅ ∧ found = none) ∨
        ∃ v ∈ s.models (Space.ofClauseSet s), found = some v) := by
  have hspace : (Space.ofClauseSet s).atoms.size ≤ wordBits := h
  obtain ⟨found, -, hplain, hforced⟩ := searches_agree (s := s) hspace
  refine ⟨found, _, _, hplain, hforced, ?_⟩
  rcases search_cases (s := s) hspace with ⟨hempty, hsearch⟩ | ⟨v, hv, hsearch⟩
  · rw [hplain] at hsearch
    cases hsearch
    exact .inl ⟨hempty, rfl⟩
  · rw [hplain] at hsearch
    cases hsearch
    exact .inr ⟨v, hv.1, rfl⟩

end Enumeration

/-- The answer of the search with propagation is right. -/
theorem Dpll.decides_report (s : ClauseSet) : Answer.Decides s ((solve s).report s).1 := by
  cases h : (solve s).model with
  | some i =>
    obtain ⟨hatoms, hsat⟩ := solve_sound h
    simp only [Result.report, h]
    exact .sat hatoms hsat
  | none =>
    simp only [Result.report, h]
    refine .unsat ?_
    rintro ⟨i, hsat⟩
    rw [solve_complete h i] at hsat
    cases hsat

/-- An algorithm fails if it enumerates more atoms than a vector has bits.  Otherwise its answer is
right. -/
theorem Algorithm.run_cases (a : Algorithm) (s : ClauseSet) :
    (a ≠ .dpll ∧ wordBits < s.atoms.size ∧ a.run s = .error ⟨s.atoms.size, 31⟩) ∨
    ((a = .dpll ∨ s.atoms.size ≤ wordBits) ∧
      ∃ answer work, a.run s = .ok (answer, work) ∧ answer.Decides s) := by
  by_cases hdpll : a = .dpll
  · subst hdpll
    exact .inr ⟨.inl rfl, _, _, rfl, Dpll.decides_report s⟩
  rcases Nat.lt_or_ge wordBits s.atoms.size with hlarge | hsmall
  · refine .inl ⟨hdpll, hlarge, ?_⟩
    have hspace : wordBits < (Space.ofClauseSet s).atoms.size := hlarge
    cases a with
    | enumeration =>
      simp only [run, Enumeration.search_eq_error hspace]
      rfl
    | forcedEnumeration =>
      simp only [run, Enumeration.searchForced_eq_error hspace]
      rfl
    | dpll => exact absurd rfl hdpll
  · obtain ⟨found, plain, forced, hplain, hforced, hfound⟩ := Enumeration.searches_find hsmall
    refine .inr ⟨.inr hsmall, ?_⟩
    cases a with
    | enumeration =>
      simp only [run, hplain]
      exact ⟨_, _, rfl, Enumeration.decides_report hsmall hfound⟩
    | forcedEnumeration =>
      simp only [run, hforced]
      exact ⟨_, _, rfl, Enumeration.decides_report hsmall hfound⟩
    | dpll => exact absurd rfl hdpll

end Clausal
