import Mathlib
import Clausal.Interpretation
import Clausal.Proofs.Restriction

/-! # Satisfaction

Restricting a clause set by a literal is the same as looking at it with the literal held true:
an interpretation that makes the literal true satisfies the set exactly if it satisfies what is
left of it (`satisfies_restrict_iff`).  One direction needs less: an interpretation that does not
make the opposite literal true never loses a satisfied set by restriction
(`satisfies_restrict`). -/

namespace Clausal

/-- Some interpretation satisfies the set. -/
def ClauseSet.IsSatisfiable (s : ClauseSet) : Prop :=
  ∃ i : Interpretation, i.satisfies s = true

namespace Interpretation

/-- `j` keeps every value that `i` gives. -/
def Extends (j i : Interpretation) : Prop := ∀ a v, i.get? a = some v → j.get? a = some v

theorem Extends.refl (i : Interpretation) : i.Extends i := fun _ _ h => h

theorem Extends.trans {i j k : Interpretation} (h₁ : k.Extends j) (h₂ : j.Extends i) :
    k.Extends i := fun a v h => h₁ a v (h₂ a v h)

theorem Extends.makesTrue {i j : Interpretation} (h : j.Extends i) {l : Literal}
    (hl : i.makesTrue l = true) : j.makesTrue l = true :=
  makesTrue_iff.mpr (h _ _ (makesTrue_iff.mp hl))

/-- Assuming a literal over an atom without a value changes no value. -/
theorem extends_assume {i : Interpretation} {l : Literal} (h : i.get? l.atom = none) :
    (i.assume l).Extends i := by
  intro a v ha
  rw [get?_assume, if_neg]
  · exact ha
  · rintro rfl
    rw [h] at ha
    cases ha

/-- The literals are over different atoms, and none of these has a value. -/
def Unsettled (i : Interpretation) (ls : List Literal) : Prop :=
  (∀ l ∈ ls, i.get? l.atom = none) ∧ (ls.map (·.atom)).Nodup

theorem unsettled_cons {i : Interpretation} {l : Literal} {ls : List Literal} :
    i.Unsettled (l :: ls) ↔ i.get? l.atom = none ∧ (i.assume l).Unsettled ls := by
  simp only [Unsettled, List.forall_mem_cons, List.map_cons, List.nodup_cons, List.mem_map,
    get?_assume]
  constructor
  · rintro ⟨⟨hl, hls⟩, hnot, hnodup⟩
    refine ⟨hl, fun m hm => ?_, hnodup⟩
    rw [if_neg fun hatom => hnot ⟨m, hm, hatom⟩]
    exact hls m hm
  · rintro ⟨hl, hls, hnodup⟩
    refine ⟨⟨hl, fun m hm => ?_⟩, ?_, hnodup⟩
    · have hvalue := hls m hm
      split at hvalue
      · cases hvalue
      · exact hvalue
    · rintro ⟨m, hm, hatom⟩
      have hvalue := hls m hm
      rw [if_pos hatom] at hvalue
      cases hvalue

theorem makesTrue_assume (i : Interpretation) (l : Literal) : (i.assume l).makesTrue l = true := by
  rw [makesTrue_iff, get?_assume, if_pos rfl]

theorem makesTrue_neg {i : Interpretation} {l : Literal} (h : i.makesTrue l = true) :
    i.makesTrue l.neg = false := by
  rw [makesTrue_iff] at h
  simp [makesTrue, h, Literal.eval, Literal.neg, Literal.asserted]

theorem satisfiesClause_iff {i : Interpretation} {c : Clause} :
    i.satisfiesClause c = true ↔ ∃ l ∈ c, i.makesTrue l = true :=
  List.any_eq_true

theorem satisfies_iff {i : Interpretation} {s : ClauseSet} :
    i.satisfies s = true ↔ ∀ c ∈ s.clauses, i.satisfiesClause c = true :=
  List.all_eq_true

theorem satisfiesClause_unit {i : Interpretation} {l : Literal} :
    i.satisfiesClause (Clause.unit l) = true ↔ i.makesTrue l = true := by
  simp [satisfiesClause_iff]

theorem not_satisfies_of_hasEmptyClause {i : Interpretation} {s : ClauseSet}
    (h : s.hasEmptyClause = true) : i.satisfies s = false := by
  obtain ⟨c, hc, hempty⟩ := ClauseSet.hasEmptyClause_iff.mp h
  rw [Bool.eq_false_iff]
  intro hsat
  obtain ⟨l, hl, -⟩ := satisfiesClause_iff.mp (satisfies_iff.mp hsat c hc)
  exact hempty l hl

theorem makesTrue_of_mem_units {i : Interpretation} {s : ClauseSet} (h : i.satisfies s = true)
    {l : Literal} (hl : l ∈ s.units) : i.makesTrue l = true :=
  satisfiesClause_unit.mp (satisfies_iff.mp h _ (ClauseSet.mem_units.mp hl))

/-- Satisfaction is kept by every interpretation that makes the same literals of the set true. -/
theorem satisfies_of_makesTrue {i j : Interpretation} {s : ClauseSet}
    (hij : ∀ l ∈ s.literals, i.makesTrue l = true → j.makesTrue l = true)
    (h : i.satisfies s = true) : j.satisfies s = true := by
  rw [satisfies_iff] at h ⊢
  intro c hc
  obtain ⟨l, hl, hil⟩ := satisfiesClause_iff.mp (h c hc)
  have hmem : l ∈ s.literals := ClauseSet.mem_literals.mpr ⟨c, hc, hl⟩
  exact satisfiesClause_iff.mpr ⟨l, hl, hij l hmem hil⟩

/-- Only the values of the atoms of the set matter. -/
theorem satisfies_congr {i j : Interpretation} {s : ClauseSet}
    (h : ∀ l ∈ s.literals, i.get? l.atom = j.get? l.atom) : i.satisfies s = j.satisfies s := by
  have hsame : ∀ l ∈ s.literals, i.makesTrue l = j.makesTrue l := by
    intro l hl
    rw [makesTrue, makesTrue, h l hl]
  rw [Bool.eq_iff_iff]
  constructor
  · exact satisfies_of_makesTrue fun l hl hil => (hsame l hl).symm.trans hil
  · exact satisfies_of_makesTrue fun l hl hjl => (hsame l hl).trans hjl

/-- What the restriction removes from a clause is not true, so the rest satisfies it. -/
theorem satisfies_restrict {i : Interpretation} {s : ClauseSet} {l : Literal}
    (hl : i.makesTrue l.neg = false) (h : i.satisfies s = true) :
    i.satisfies (s.restrict l) = true := by
  rw [satisfies_iff]
  intro d hd
  obtain ⟨c, hc, hcd⟩ := ClauseSet.mem_restrict.mp hd
  obtain ⟨m, hmc, hm⟩ := satisfiesClause_iff.mp (satisfies_iff.mp h c hc)
  have hatom : m.atom ≠ l.atom := by
    intro hatom
    rcases Literal.eq_or_eq_neg hatom with rfl | rfl
    · rw [Clause.restrict_eq_none_iff.mpr hmc] at hcd
      cases hcd
    · rw [hm] at hl
      cases hl
  have hmd : m ∈ d := (Clause.mem_of_restrict hcd).mpr ⟨hmc, hatom⟩
  exact satisfiesClause_iff.mpr ⟨m, hmd, hm⟩

/-- Under an interpretation that makes `l` true, a set and its restriction by `l` say the same. -/
theorem satisfies_restrict_iff {i : Interpretation} {s : ClauseSet} {l : Literal}
    (hl : i.makesTrue l = true) : i.satisfies (s.restrict l) = true ↔ i.satisfies s = true := by
  refine ⟨fun h => ?_, satisfies_restrict (makesTrue_neg hl)⟩
  rw [satisfies_iff]
  intro c hc
  cases hcd : c.restrict l with
  | none => exact satisfiesClause_iff.mpr ⟨l, Clause.restrict_eq_none_iff.mp hcd, hl⟩
  | some d =>
    have hd := satisfies_iff.mp h d (ClauseSet.mem_restrict.mpr ⟨c, hc, hcd⟩)
    obtain ⟨m, hmd, hm⟩ := satisfiesClause_iff.mp hd
    exact satisfiesClause_iff.mpr ⟨m, ((Clause.mem_of_restrict hcd).mp hmd).1, hm⟩

theorem lookup_map_pair {f : Atom → Bool} {as : List Atom} {a : Atom} (h : a ∈ as) :
    (as.map (fun b => (b, f b))).lookup a = some (f a) := by
  induction as with
  | nil => cases h
  | cons b bs ih =>
    rw [List.map_cons]
    by_cases hab : a = b
    · rw [hab, lookup_cons_self]
    · rw [lookup_cons_of_ne hab]
      exact ih ((List.mem_cons.mp h).resolve_left hab)

theorem get?_totalOn {i : Interpretation} {atoms : OrderedSet Atom} {a : Atom} (h : a ∈ atoms) :
    (i.totalOn atoms).get? a = some ((i.get? a).getD false) :=
  lookup_map_pair h

theorem atoms_totalOn (i : Interpretation) (atoms : OrderedSet Atom) :
    (i.totalOn atoms).atoms = atoms := by
  refine OrderedSet.ext ?_
  simp [Interpretation.atoms, totalOn, Function.comp_def]

/-- An interpretation made total on the atoms of a set keeps the true literals of the set. -/
theorem satisfies_totalOn {i : Interpretation} {s : ClauseSet} (h : i.satisfies s = true) :
    (i.totalOn s.atoms).satisfies s = true := by
  refine satisfies_of_makesTrue (fun l hl hil => ?_) h
  have hatom : l.atom ∈ s.atoms := ClauseSet.mem_atoms.mpr ⟨l, hl, rfl⟩
  rw [makesTrue_iff] at hil ⊢
  rw [get?_totalOn hatom, hil, Option.getD_some]

end Interpretation
end Clausal
