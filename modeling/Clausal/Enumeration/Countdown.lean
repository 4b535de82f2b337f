/-! # Counting down

A countdown tries the numbers below a bound from the greatest to zero, stops at the first one
that is accepted, and counts how many it tried. -/

namespace Clausal

/-- What a countdown found, and how many numbers it tried. -/
structure Countdown where
  found : Option Nat
  visited : Nat
deriving DecidableEq

namespace Countdown

/-- Tries the numbers below a bound in descending order, after `visited` earlier tries. -/
def below (accepts : Nat → Bool) : Nat → Nat → Countdown
  | 0, visited => ⟨none, visited⟩
  | n + 1, visited =>
    if accepts n then ⟨some n, visited + 1⟩ else below accepts n (visited + 1)

/-- Nothing is found exactly if no number below the bound is accepted, and then all of them
were tried. -/
theorem below_of_none {accepts : Nat → Bool} {bound : Nat}
    (h : ∀ n < bound, accepts n = false) (visited : Nat) :
    below accepts bound visited = ⟨none, visited + bound⟩ := by
  induction bound generalizing visited with
  | zero => rfl
  | succ k ih =>
    rw [below, h k (Nat.lt_succ_self k)]
    simp only [Bool.false_eq_true, if_false]
    rw [ih (fun n hn => h n (Nat.lt_succ_of_lt hn))]
    congr 1
    omega

/-- The greatest accepted number below the bound is found, after trying those above it. -/
theorem below_of_greatest {accepts : Nat → Bool} {bound n : Nat} (hn : n < bound)
    (haccepts : accepts n = true) (h : ∀ m < bound, n < m → accepts m = false) (visited : Nat) :
    below accepts bound visited = ⟨some n, visited + (bound - n)⟩ := by
  induction bound generalizing visited with
  | zero => omega
  | succ k ih =>
    rcases Nat.lt_succ_iff_lt_or_eq.mp hn with hlt | rfl
    · rw [below, h k (Nat.lt_succ_self k) hlt]
      simp only [Bool.false_eq_true, if_false]
      rw [ih hlt (fun m hm => h m (Nat.lt_succ_of_lt hm))]
      congr 1
      omega
    · rw [below, haccepts]
      simp only [if_true]
      congr 1
      omega

end Countdown
end Clausal
