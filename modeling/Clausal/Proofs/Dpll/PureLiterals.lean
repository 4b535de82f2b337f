import Mathlib
import Clausal.Proofs.Dpll.Assumptions
import Clausal.Proofs.Substitution

/-! # Elimination of pure literals

The pure literals of a clause set are read off once and then assumed one after the other, each in
the set that the earlier ones have left.  At no stage does the opposite of one of them occur, so
each assumption only drops clauses, and together they leave the clauses without a pure literal
(`clauses_assumePure`), in whatever order they are assumed (`set_assumeAll_of_perm`).  The unit
clauses and empty clauses that are left were there before (`units_assumePure`,
`hasEmptyClause_assumePure`), and a model of what is left becomes a model of the whole set once
the pure literals are assumed in it (`satisfies_assumeAll_pureLiterals`). -/

namespace Clausal.Dpll.State

variable {st : State} {ls : List Literal} {i : Interpretation}

/-- The order of the pure literals does not matter. -/
theorem set_assumeAll_of_perm (h : ls.Perm st.set.pureLiterals) :
    (st.assumeAll ls).set = st.assumePure.set := by
  have hatoms : (ls.map (·.atom)).Nodup :=
    (h.map _).nodup_iff.mpr st.set.nodup_pureLiterals_atoms
  rw [assumePure, set_assumeAll, set_assumeAll]
  exact ClauseSet.restrictAll_congr (Literal.nodup_atoms_iff.mp hatoms).2 fun _ => h.mem_iff

/-- The unit clauses that are left are those of the literals that are not pure. -/
theorem units_assumePure (st : State) :
    st.assumePure.set.units = st.set.units.filter (· ∉ st.set.pureLiterals) := by
  rw [ClauseSet.units, clauses_assumePure, List.filterMap_filter, ClauseSet.units,
    List.filter_filterMap]
  refine List.filterMap_congr fun c _ => ?_
  cases hunit : c.unit? with
  | none => simp
  | some l =>
    obtain rfl : c = Clause.unit l := Clause.unit?_eq_some_iff.mp hunit
    have hkept : (∀ m ∈ st.set.pureLiterals, m ∉ Clause.unit l) ↔ l ∉ st.set.pureLiterals := by
      simp only [Clause.mem_unit]
      exact ⟨fun h hl => h l hl rfl, fun h m hm hml => h (hml ▸ hm)⟩
    simp only [hkept, Option.filter_some]

/-- With the pure literals assumed, whatever satisfies the clauses that are left satisfies all. -/
theorem satisfies_assumeAll_pureLiterals :
    (i.assumeAll st.set.pureLiterals).satisfies st.set = i.satisfies st.assumePure.set := by
  have hreverse : (st.assumeAll st.set.pureLiterals.reverse).set = st.assumePure.set :=
    set_assumeAll_of_perm (List.reverse_perm _)
  rw [Interpretation.satisfies_assumeAll, ← set_assumeAll, hreverse]

/-- The elimination of pure literals is a filter: it keeps exactly the clauses without a literal
whose opposite occurs nowhere in the set, and does so in any order of these literals.  Hence no
empty and no unit clause arises; and what is left has a model exactly if the set has one. -/
theorem assumePure_is_filter (st : State) :
    (∀ l, l ∈ st.set.pureLiterals ↔ l ∈ st.set.literals ∧ l.neg ∉ st.set.literals) ∧
    st.assumePure.set.clauses =
      st.set.clauses.filter (fun c => ∀ l ∈ st.set.pureLiterals, l ∉ c) ∧
    (∀ ls, ls.Perm st.set.pureLiterals → (st.assumeAll ls).set = st.assumePure.set) ∧
    st.assumePure.set.hasEmptyClause = st.set.hasEmptyClause ∧
    st.assumePure.set.units = st.set.units.filter (· ∉ st.set.pureLiterals) ∧
    (st.assumePure.set.IsSatisfiable ↔ st.set.IsSatisfiable) := by
  refine ⟨fun _ => ClauseSet.mem_pureLiterals, st.clauses_assumePure,
    fun _ => set_assumeAll_of_perm, st.hasEmptyClause_assumePure, st.units_assumePure, ?_, ?_⟩
  · rintro ⟨i, hi⟩
    exact ⟨i.assumeAll st.set.pureLiterals, satisfies_assumeAll_pureLiterals.trans hi⟩
  · rintro ⟨i, hi⟩
    exact ⟨i, satisfies_assumePure hi⟩

end Clausal.Dpll.State
