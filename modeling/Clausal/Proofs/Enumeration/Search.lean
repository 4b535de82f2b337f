import Mathlib
import Clausal.Enumeration

/-! # What the searches compute

Within the capacity of a word both searches are countdowns, over the `2 ^ n` vectors of the space
and over the `2 ^ free` counters of a template (`search_eq_ok`, `searchForced_eq_ok`); beyond it
both fail.  A countdown finds the greatest accepted number, if there is one
(`Countdown.below_cases`). -/

namespace Clausal

/-! ### Countdowns -/

namespace Countdown

/-- A countdown either finds nothing or the greatest accepted number. -/
theorem below_cases (accepts : ℕ → Bool) (bound : ℕ) :
    (∀ n < bound, accepts n = false) ∧ below accepts bound 0 = ⟨none, bound⟩ ∨
    ∃ n < bound, accepts n = true ∧ (∀ m < bound, n < m → accepts m = false) ∧
      below accepts bound 0 = ⟨some n, bound - n⟩ := by
  by_cases h : ∃ n < bound, accepts n = true
  · obtain ⟨n, hn, haccepts, hgreatest⟩ : ∃ n < bound, accepts n = true ∧
        ∀ m < bound, n < m → accepts m = false := by
      have hne : ((Finset.range bound).filter (fun n => accepts n = true)).Nonempty := by
        obtain ⟨n, hn, haccepts⟩ := h
        exact ⟨n, by simp [hn, haccepts]⟩
      obtain ⟨n, hn, hmax⟩ := Finset.exists_max_image _ id hne
      rw [Finset.mem_filter, Finset.mem_range] at hn
      refine ⟨n, hn.1, hn.2, fun m hm hlt => ?_⟩
      rw [Bool.eq_false_iff]
      intro haccepts
      have hle := hmax m (by simp [hm, haccepts])
      exact absurd hlt (Nat.not_lt.mpr hle)
    refine .inr ⟨n, hn, haccepts, hgreatest, ?_⟩
    rw [below_of_greatest hn haccepts hgreatest, Nat.zero_add]
  · push Not at h
    have hnone : ∀ n < bound, accepts n = false := fun n hn => Bool.eq_false_iff.mpr (h n hn)
    refine .inl ⟨hnone, ?_⟩
    rw [below_of_none hnone, Nat.zero_add]

end Countdown

/-! ### The first word -/

namespace Space

variable {space : Space}

theorem firstWord_eq_ok (h : space.atoms.size ≤ wordBits) :
    space.firstWord = .ok (2 ^ space.atoms.size - 1) := by
  have hcount : space.wordCount = (space.wordCount - 1) + 1 := by
    have : 1 ≤ space.wordCount := Nat.le_max_left _ _
    omega
  have hhead : space.words.headD 0 = 2 ^ space.atoms.size - 1 := by
    rw [words, hcount, List.range_succ_eq_map, List.map_cons, List.headD_cons, Nat.mul_zero,
      Nat.sub_zero, Nat.min_eq_right h]
    rfl
  rw [firstWord, hhead]
  exact if_pos h

theorem firstWord_eq_error (h : wordBits < space.atoms.size) :
    space.firstWord = .error ⟨space.atoms.size, 31⟩ :=
  if_neg (Nat.not_le.mpr h)

end Space

/-! ### Searches -/

namespace Enumeration

variable {s : ClauseSet} {space : Space}

theorem search_eq_ok {c : Countdown} (h : space.atoms.size ≤ wordBits)
    (hc : Countdown.below (s.accepts space) (2 ^ space.atoms.size) 0 = c) :
    search s space = .ok ⟨c.found, c.visited⟩ := by
  have hpos := Nat.two_pow_pos space.atoms.size
  rw [search, Space.firstWord_eq_ok h, Except.map, Nat.sub_add_cancel hpos, hc]

theorem searchForced_eq_ok {t : Template} {c : Countdown} (h : space.atoms.size ≤ wordBits)
    (ht : Template.ofClauseSet s space = t)
    (hc : Countdown.below (fun counter => s.accepts space (t.fill counter)) (2 ^ t.free) 0 = c) :
    searchForced s space = .ok ⟨c.found.map t.fill, c.visited⟩ := by
  subst ht hc
  rw [searchForced, Space.firstWord_eq_ok h]
  rfl

theorem search_eq_error (h : wordBits < space.atoms.size) :
    search s space = .error ⟨space.atoms.size, 31⟩ := by
  rw [search, Space.firstWord_eq_error h]
  rfl

theorem searchForced_eq_error (h : wordBits < space.atoms.size) :
    searchForced s space = .error ⟨space.atoms.size, 31⟩ := by
  rw [searchForced, Space.firstWord_eq_error h]
  rfl

end Enumeration

end Clausal
