import Mathlib
import Clausal.Proofs.Satisfaction
import Clausal.Proofs.UnitClosure

/-! # Restriction is substitution

To assume a literal in an interpretation and to restrict a clause set by it are two sides of one
thing: the changed interpretation satisfies the set exactly if the interpretation satisfies the
restricted set (`Interpretation.satisfies_assume`), whatever value it had for the atom before.  In a
sequence of assumptions the last one over an atom counts, while in a sequence of restrictions the
first one does; the one sequence is therefore the other one reversed
(`Interpretation.satisfies_assumeAll`).

A restriction settles its atom for good, and restrictions without opposites depend on no order
(`ClauseSet.restrictAll_congr`).  `ClauseSet.restrict_is_substitution` puts the laws of a single
restriction together. -/

namespace Clausal

namespace Interpretation

/-- An interpretation in which a literal is assumed sees the set as it is after restriction. -/
theorem satisfies_assume (i : Interpretation) (s : ClauseSet) (l : Literal) :
    (i.assume l).satisfies s = i.satisfies (s.restrict l) := by
  calc (i.assume l).satisfies s = (i.assume l).satisfies (s.restrict l) :=
        Bool.eq_iff_iff.mpr (satisfies_restrict_iff (makesTrue_assume i l)).symm
    _ = i.satisfies (s.restrict l) := by
        refine satisfies_congr fun m hm => ?_
        rw [get?_assume, if_neg (ClauseSet.mem_literals_restrict hm).2]

theorem satisfies_assumeAll (i : Interpretation) (s : ClauseSet) (ls : List Literal) :
    (i.assumeAll ls).satisfies s = i.satisfies (s.restrictAll ls.reverse) := by
  induction ls generalizing i with
  | nil => rfl
  | cons l ls ih =>
    have hlast : s.restrictAll (l :: ls).reverse = (s.restrictAll ls.reverse).restrict l := by
      rw [List.reverse_cons, ClauseSet.restrictAll, List.foldl_append]
      rfl
    rw [hlast, ← satisfies_assume]
    exact ih (i.assume l)

end Interpretation

namespace ClauseSet

variable {s : ClauseSet} {l m : Literal} {ls ls' : List Literal}

/-- A set without the atom of a literal is left as it is. -/
theorem restrict_eq_self (h : ∀ k ∈ s.literals, k.atom ≠ l.atom) : s.restrict l = s := by
  have hself : ∀ c ∈ s.clauses, c.restrict l = some c := by
    intro c hc
    apply Clause.restrict_eq_self
    · intro hl
      exact h l (mem_literals.mpr ⟨c, hc, hl⟩) rfl
    · intro hneg
      exact h l.neg (mem_literals.mpr ⟨c, hc, hneg⟩) l.neg_atom
  apply ClauseSet.ext
  rw [restrict, List.filterMap_congr hself, List.filterMap_some]

/-- Of two restrictions over one atom only the first does anything. -/
theorem restrict_restrict_of_atom_eq (h : m.atom = l.atom) :
    (s.restrict l).restrict m = s.restrict l := by
  refine restrict_eq_self fun k hk => ?_
  rw [h]
  exact (mem_literals_restrict hk).2

/-- Restrictions by literals without opposites only depend on which literals these are. -/
theorem restrictAll_congr (hconsistent : ∀ l ∈ ls, l.neg ∉ ls) (h : ∀ l, l ∈ ls ↔ l ∈ ls') :
    s.restrictAll ls = s.restrictAll ls' := by
  have hconsistent' : ∀ l ∈ ls', l.neg ∉ ls' := by
    intro l hl hneg
    exact hconsistent l ((h l).mpr hl) ((h l.neg).mpr hneg)
  rw [restrictAll_eq_reduce hconsistent, restrictAll_eq_reduce hconsistent', reduce_congr h]

theorem restrict_comm (h : m.atom ≠ l.atom) :
    (s.restrict l).restrict m = (s.restrict m).restrict l := by
  have hatoms : ([l, m].map (·.atom)).Nodup := by simpa using h.symm
  exact restrictAll_congr (Literal.nodup_atoms_iff.mp hatoms).2
    fun k => (List.Perm.swap m l []).mem_iff

/-- Restricting a set by a literal is substituting the value that makes the literal true: an
interpretation with the literal assumed satisfies the set exactly if the interpretation itself
satisfies the restriction.  The restriction has lost the atom of the literal and has gained none.
Restrictions over different atoms commute, and a further one over the same atom does nothing. -/
theorem restrict_is_substitution (s : ClauseSet) (l : Literal) :
    (∀ i : Interpretation, (i.assume l).satisfies s = i.satisfies (s.restrict l)) ∧
    l.atom ∉ (s.restrict l).atoms ∧ (∀ a ∈ (s.restrict l).atoms, a ∈ s.atoms) ∧
    (∀ m : Literal, m.atom ≠ l.atom →
      (s.restrict l).restrict m = (s.restrict m).restrict l) ∧
    ∀ m : Literal, m.atom = l.atom → (s.restrict l).restrict m = s.restrict l := by
  refine ⟨fun i => i.satisfies_assume s l, fun hatom => ?_, fun a ha => ?_,
    fun m => restrict_comm, fun m => restrict_restrict_of_atom_eq⟩
  · obtain ⟨k, hk, hkl⟩ := mem_atoms.mp hatom
    exact (mem_literals_restrict hk).2 hkl
  · obtain ⟨k, hk, rfl⟩ := mem_atoms.mp ha
    exact mem_atoms.mpr ⟨k, (mem_literals_restrict hk).1, rfl⟩

end ClauseSet

end Clausal
