import Mathlib
import Clausal.Proofs.Enumeration.Search
import Clausal.Proofs.Vector

/-! # The plain search finds the greatest model

The vectors of a space whose interpretations satisfy a clause set are its *models* over the space.
Within the capacity the search answers with the greatest of them, after trying the vectors from
the last one down to it (`search_cases`); over the atoms of the set there is a model as soon as
any interpretation satisfies the set (`models_nonempty_iff`). -/

namespace Clausal

namespace ClauseSet

variable {s : ClauseSet} {space : Space}

/-- The vectors of the space whose interpretations satisfy the set. -/
def models (s : ClauseSet) (space : Space) : Set ℕ :=
  {v | v < 2 ^ space.atoms.size ∧ (Interpretation.ofVector space.atoms v).satisfies s = true}

theorem models_eq_empty_of_forall
    (h : ∀ v < 2 ^ space.atoms.size, s.accepts space v = false) : s.models space = ∅ := by
  rw [Set.eq_empty_iff_forall_notMem]
  rintro v ⟨hv, hsat⟩
  have hrefused : (Interpretation.ofVector space.atoms v).satisfies s = false := h v hv
  rw [hrefused] at hsat
  cases hsat

/-- Where the space has all atoms of the set, nothing is lost by looking at its vectors only. -/
theorem models_nonempty_iff (hatoms : ∀ a ∈ s.atoms, a ∈ space.atoms) :
    (s.models space).Nonempty ↔ s.IsSatisfiable := by
  constructor
  · rintro ⟨v, -, hsat⟩
    exact ⟨_, hsat⟩
  · rintro ⟨i, hsat⟩
    exact ⟨i.vectorOver space.atoms, i.vectorOver_lt space.atoms,
      Interpretation.satisfies_ofVector_vectorOver hatoms hsat⟩

end ClauseSet

namespace Enumeration

variable {s : ClauseSet} {space : Space}

/-- Within the capacity the search finds the greatest model, or tries all vectors in vain. -/
theorem search_cases (h : space.atoms.size ≤ wordBits) :
    (s.models space = ∅ ∧ search s space = .ok ⟨none, 2 ^ space.atoms.size⟩) ∨
    ∃ v, IsGreatest (s.models space) v ∧
      search s space = .ok ⟨some v, 2 ^ space.atoms.size - v⟩ := by
  rcases Countdown.below_cases (s.accepts space) (2 ^ space.atoms.size)
    with ⟨hnone, hsearch⟩ | ⟨v, hv, haccepts, hgreatest, hsearch⟩
  · exact .inl ⟨ClauseSet.models_eq_empty_of_forall hnone, search_eq_ok h hsearch⟩
  · refine .inr ⟨v, ⟨⟨hv, haccepts⟩, ?_⟩, search_eq_ok h hsearch⟩
    rintro w ⟨hw, hsat⟩
    by_contra hlt
    have hrefused : s.accepts space w = false := hgreatest w hw (Nat.lt_of_not_le hlt)
    rw [ClauseSet.accepts, hsat] at hrefused
    cases hrefused

/-- The search fails exactly on more than 31 atoms.  Otherwise it finds the greatest model, after
trying the vectors from the last one down to it, or no vector, after trying all: then, if the space
has all atoms of the set, nothing satisfies the set. -/
theorem search_finds_greatest (s : ClauseSet) (space : Space) :
    (search s space = .error ⟨space.atoms.size, 31⟩ ↔ 31 < space.atoms.size) ∧
    (space.atoms.size ≤ 31 → ∃ e, search s space = .ok e ∧
      (∀ v ∈ e.vector, IsGreatest (s.models space) v ∧ e.visited = 2 ^ space.atoms.size - v) ∧
      (e.vector = none → s.models space = ∅ ∧ e.visited = 2 ^ space.atoms.size) ∧
      ((∀ a ∈ s.atoms, a ∈ space.atoms) → (e.vector = none ↔ ¬ s.IsSatisfiable))) := by
  constructor
  · constructor
    · intro herror
      by_contra hsmall
      rcases search_cases (s := s) (Nat.le_of_not_lt hsmall) with ⟨-, hok⟩ | ⟨v, -, hok⟩ <;>
      · rw [hok] at herror
        cases herror
    · exact search_eq_error
  · intro hsmall
    rcases search_cases (s := s) hsmall with ⟨hempty, hok⟩ | ⟨v, hv, hok⟩
    · refine ⟨_, hok, by simp, fun _ => ⟨hempty, rfl⟩, fun hatoms => ?_⟩
      rw [← ClauseSet.models_nonempty_iff hatoms, Set.not_nonempty_iff_eq_empty]
      exact iff_of_true rfl hempty
    · refine ⟨_, hok, ?_, by simp, fun hatoms => ?_⟩
      · rintro w hw
        cases hw
        exact ⟨hv, rfl⟩
      · rw [← ClauseSet.models_nonempty_iff hatoms]
        exact iff_of_false (by simp) (not_not_intro ⟨v, hv.1⟩)

end Enumeration
end Clausal
