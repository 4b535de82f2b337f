import Mathlib
import Clausal.Proofs.Restriction

/-! # The closure under the unit rule

The unit rule takes a clause of which all literals but one are refuted, and derives the literal that
is left.  The literals that it derives from a clause set are the least set of literals closed under
it (`ClauseSet.isLeast_unitClosure`).

Restricting a set by a derived literal keeps the closed sets above it closed
(`IsUnitClosed.restrict`), and falsifies no clause that was not falsified before
(`IsFalsifiedBy.of_restrict`).  Restrictions by literals without opposites can be carried out at
once (`ClauseSet.restrictAll_eq_reduce`); if no unit clause and no empty clause is left, the
literals were closed under the unit rule (`isUnitClosed_of_reduce`). -/

namespace Clausal

theorem Literal.neg_eq_iff {l m : Literal} : m.neg = l ↔ m = l.neg := by
  constructor
  · rintro rfl
    exact m.neg_neg.symm
  · rintro rfl
    exact l.neg_neg

/-! ### Reducing a set by several literals at once -/

/-- What is left of a clause once all the literals hold; nothing, if it is then satisfied. -/
def Clause.reduce (c : Clause) (ls : List Literal) : Option Clause :=
  if ∃ l ∈ ls, l ∈ c then none else some ⟨c.literals.filter (fun m => m.neg ∉ ls)⟩

namespace Clause

variable {c d : Clause} {l m : Literal} {ls : List Literal}

theorem reduce_eq_none_iff : c.reduce ls = none ↔ ∃ l ∈ ls, l ∈ c := by
  simp [reduce]

theorem mem_of_reduce (h : c.reduce ls = some d) : m ∈ d ↔ m ∈ c ∧ m.neg ∉ ls := by
  unfold reduce at h
  split at h
  · cases h
  · cases h
    exact OrderedSet.mem_filter.trans (and_congr_right fun _ => by simp)

/-- A literal that holds first can be taken together with later ones that do not contradict it. -/
theorem restrict_bind_reduce (hneg : l.neg ∉ ls) (c : Clause) :
    (c.restrict l).bind (·.reduce ls) = c.reduce (l :: ls) := by
  by_cases hl : l ∈ c
  · rw [restrict_eq_none_iff.mpr hl, reduce_eq_none_iff.mpr ⟨l, List.mem_cons_self, hl⟩]
    rfl
  · have hkept : ∀ k ∈ ls, k ∈ (⟨c.literals.filter (· ≠ l.neg)⟩ : Clause) ↔ k ∈ c := by
      intro k hk
      rw [mem_removing, and_iff_left_iff_imp]
      rintro - rfl
      exact hneg hk
    have hsat : (∃ k ∈ ls, k ∈ (⟨c.literals.filter (· ≠ l.neg)⟩ : Clause)) ↔
        ∃ k ∈ l :: ls, k ∈ c := by
      simp only [List.exists_mem_cons_iff, hl, false_or]
      exact exists_congr fun k => and_congr_right (hkept k)
    rw [restrict, if_neg hl, Option.bind_some, reduce, reduce]
    refine ite_congr (propext hsat) (fun _ => rfl) fun _ => ?_
    refine congrArg some (Clause.ext (OrderedSet.ext ?_))
    show (c.literals.toList.filter _).filter _ = c.literals.toList.filter _
    rw [List.filter_filter]
    refine List.filter_congr fun m _ => ?_
    simp [Literal.neg_eq_iff, Bool.and_comm]

/-- A literal over the settled atom that a restriction removes is the opposite one. -/
theorem neg_eq_of_restrict (h : c.restrict l = some d) (hm : m ∈ c) (hatom : m.atom = l.atom) :
    m.neg = l := by
  rcases Literal.eq_or_eq_neg hatom with rfl | rfl
  · rw [restrict_eq_none_iff.mpr hm] at h
    cases h
  · exact l.neg_neg

end Clause

namespace ClauseSet

variable {s t : ClauseSet} {l : Literal} {ls ls' : List Literal} {L : Set Literal}

/-- What is left of the set once all the literals hold. -/
def reduce (s : ClauseSet) (ls : List Literal) : ClauseSet :=
  ⟨s.clauses.filterMap (·.reduce ls)⟩

theorem mem_reduce {d : Clause} :
    d ∈ (s.reduce ls).clauses ↔ ∃ c ∈ s.clauses, c.reduce ls = some d :=
  List.mem_filterMap

theorem reduce_congr (h : ∀ l, l ∈ ls ↔ l ∈ ls') (s : ClauseSet) : s.reduce ls = s.reduce ls' := by
  simp only [reduce, Clause.reduce, h]

theorem reduce_nil (s : ClauseSet) : s.reduce [] = s := by
  have hself : ∀ c : Clause, c.reduce [] = some c := by
    intro c
    simp [Clause.reduce, OrderedSet.filter]
  simp [reduce, hself]

theorem restrictAll_eq_reduce (h : ∀ l ∈ ls, l.neg ∉ ls) : s.restrictAll ls = s.reduce ls := by
  induction ls generalizing s with
  | nil => exact s.reduce_nil.symm
  | cons l ls ih =>
    have hls : ∀ m ∈ ls, m.neg ∉ ls := fun m hm hneg =>
      h m (List.mem_cons_of_mem _ hm) (List.mem_cons_of_mem _ hneg)
    have hl : l.neg ∉ ls := fun hneg => h l List.mem_cons_self (List.mem_cons_of_mem _ hneg)
    show (s.restrict l).restrictAll ls = s.reduce (l :: ls)
    rw [ih hls, reduce, restrict, List.filterMap_filterMap, reduce]
    congr 1
    exact List.filterMap_congr fun c _ => c.restrict_bind_reduce hl

/-! ### Closed sets of literals -/

/-- The unit rule derives nothing new from the literals: if the opposites of all literals of a
clause but one are among them, then so is that one. -/
def IsUnitClosed (s : ClauseSet) (L : Set Literal) : Prop :=
  ∀ c ∈ s.clauses, ∀ l ∈ c, (∀ m ∈ c, m ≠ l → m.neg ∈ L) → l ∈ L

/-- The literals that the unit rule derives from the set: those in each closed set of literals. -/
def unitClosure (s : ClauseSet) : Set Literal := ⋂₀ {L | s.IsUnitClosed L}

/-- All literals of some clause are refuted. -/
def IsFalsifiedBy (s : ClauseSet) (L : Set Literal) : Prop :=
  ∃ c ∈ s.clauses, ∀ l ∈ c, l.neg ∈ L

theorem isLeast_unitClosure (s : ClauseSet) : IsLeast {L | s.IsUnitClosed L} s.unitClosure := by
  refine ⟨fun c hc l hl hothers L hL => ?_, fun L hL => Set.sInter_subset_of_mem hL⟩
  exact hL c hc l hl fun m hm hne => Set.mem_sInter.mp (hothers m hm hne) L hL

/-- Closed sets only depend on which clauses there are. -/
theorem unitClosure_congr (h : ∀ c, c ∈ t.clauses ↔ c ∈ s.clauses) :
    t.unitClosure = s.unitClosure := by
  simp only [unitClosure, IsUnitClosed, h]

theorem isFalsifiedBy_congr (h : ∀ c, c ∈ t.clauses ↔ c ∈ s.clauses) :
    t.IsFalsifiedBy L ↔ s.IsFalsifiedBy L := by
  simp only [IsFalsifiedBy, h]

theorem IsUnitClosed.mem_of_mem_units (h : s.IsUnitClosed L) (hl : l ∈ s.units) : l ∈ L := by
  refine h _ (mem_units.mp hl) l (Clause.mem_unit.mpr rfl) fun m hm hne => ?_
  exact absurd (Clause.mem_unit.mp hm) hne

theorem IsUnitClosed.restrict (h : s.IsUnitClosed L) (hl : l ∈ L) :
    (s.restrict l).IsUnitClosed L := by
  intro d hd k hk hothers
  obtain ⟨c, hc, hcd⟩ := mem_restrict.mp hd
  refine h c hc k ((Clause.mem_of_restrict hcd).mp hk).1 fun m hm hne => ?_
  by_cases hatom : m.atom = l.atom
  · rwa [Clause.neg_eq_of_restrict hcd hm hatom]
  · exact hothers m ((Clause.mem_of_restrict hcd).mpr ⟨hm, hatom⟩) hne

theorem IsFalsifiedBy.of_restrict (h : (s.restrict l).IsFalsifiedBy L) (hl : l ∈ L) :
    s.IsFalsifiedBy L := by
  obtain ⟨d, hd, hfalse⟩ := h
  obtain ⟨c, hc, hcd⟩ := mem_restrict.mp hd
  refine ⟨c, hc, fun m hm => ?_⟩
  by_cases hatom : m.atom = l.atom
  · rwa [Clause.neg_eq_of_restrict hcd hm hatom]
  · exact hfalse m ((Clause.mem_of_restrict hcd).mpr ⟨hm, hatom⟩)

theorem isFalsifiedBy_of_hasEmptyClause (h : s.hasEmptyClause = true) (L : Set Literal) :
    s.IsFalsifiedBy L := by
  obtain ⟨c, hc, hnone⟩ := hasEmptyClause_iff.mp h
  exact ⟨c, hc, fun l hl => absurd hl (hnone l)⟩

/-! ### Fixpoints -/

/-- Literals that leave no unit clause and no empty clause behind are closed under the unit rule. -/
theorem isUnitClosed_of_reduce (hconsistent : ∀ l ∈ ls, l.neg ∉ ls)
    (hunits : (s.reduce ls).units = []) (hempty : (s.reduce ls).hasEmptyClause = false) :
    s.IsUnitClosed {l | l ∈ ls} := by
  intro c hc l hl hothers
  cases hcd : c.reduce ls with
  | none =>
    obtain ⟨k, hk, hkc⟩ := Clause.reduce_eq_none_iff.mp hcd
    by_cases hkl : k = l
    · exact hkl ▸ hk
    · exact absurd (hothers k hkc hkl) (hconsistent k hk)
  | some d =>
    have hd : d ∈ (s.reduce ls).clauses := mem_reduce.mpr ⟨c, hc, hcd⟩
    have honly : ∀ m ∈ d, m = l := by
      intro m hm
      obtain ⟨hmc, hneg⟩ := (Clause.mem_of_reduce hcd).mp hm
      by_contra hne
      exact hneg (hothers m hmc hne)
    by_cases hld : l ∈ d
    · have hunit : d = Clause.unit l := Clause.eq_unit_iff.mpr fun m => ⟨honly m, (· ▸ hld)⟩
      have hmem : l ∈ (s.reduce ls).units := mem_units.mpr (hunit ▸ hd)
      rw [hunits] at hmem
      cases hmem
    · have hnone : ∀ m, m ∉ d := fun m hm => hld (honly m hm ▸ hm)
      exact absurd (hasEmptyClause_iff.mpr ⟨d, hd, hnone⟩) (Bool.eq_false_iff.mp hempty)

/-- Literals that leave no empty clause behind falsify no clause. -/
theorem not_isFalsifiedBy_of_reduce (hconsistent : ∀ l ∈ ls, l.neg ∉ ls)
    (hempty : (s.reduce ls).hasEmptyClause = false) : ¬ s.IsFalsifiedBy {l | l ∈ ls} := by
  rintro ⟨c, hc, hfalse⟩
  cases hcd : c.reduce ls with
  | none =>
    obtain ⟨k, hk, hkc⟩ := Clause.reduce_eq_none_iff.mp hcd
    exact hconsistent k hk (hfalse k hkc)
  | some d =>
    have hd : d ∈ (s.reduce ls).clauses := mem_reduce.mpr ⟨c, hc, hcd⟩
    have hnone : ∀ m, m ∉ d := fun m hm =>
      ((Clause.mem_of_reduce hcd).mp hm).2 (hfalse m ((Clause.mem_of_reduce hcd).mp hm).1)
    exact absurd (hasEmptyClause_iff.mpr ⟨d, hd, hnone⟩) (Bool.eq_false_iff.mp hempty)

end ClauseSet

end Clausal
