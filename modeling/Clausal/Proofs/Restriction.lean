import Mathlib
import Clausal.ClauseSet

/-! # Restriction of clauses and clause sets

Which clauses, units and literals are left of a clause set after a restriction.  A clause
that contains neither the literal nor its opposite stays as it is (`Clause.restrict_eq_self`), a
unit clause stays or is falsified (`ClauseSet.mem_units_restrict`), a clause with two literals is
not falsified (`ClauseSet.hasEmptyClause_restrict_of_two_le`), and restricting by literals whose
opposites occur nowhere only drops clauses (`ClauseSet.clauses_restrictAll_of_pure`). -/

namespace Clausal

/-- Literals are over different atoms if none is repeated and no two are opposite. -/
theorem Literal.nodup_atoms_iff {ls : List Literal} :
    (ls.map (·.atom)).Nodup ↔ ls.Nodup ∧ ∀ l ∈ ls, l.neg ∉ ls := by
  constructor
  · intro h
    refine ⟨h.of_map _, fun l hl hneg => ?_⟩
    exact l.neg_ne (List.inj_on_of_nodup_map h hneg hl l.neg_atom)
  · rintro ⟨hnodup, hneg⟩
    refine hnodup.map_on fun l hl m hm hatom => ?_
    refine (Literal.eq_or_eq_neg hatom).resolve_right ?_
    rintro rfl
    exact hneg m hm hl

/-! ### Clauses -/

namespace Clause

theorem isEmpty_iff {c : Clause} : c.isEmpty = true ↔ ∀ l, l ∉ c := by
  simp only [isEmpty, OrderedSet.isEmpty, List.isEmpty_iff, mem_def]
  exact List.eq_nil_iff_forall_not_mem

theorem toList_unit (l : Literal) : (unit l).literals.toList = [l] :=
  OrderedSet.toList_ofList_of_nodup (List.nodup_singleton l)

theorem unit?_eq_some_iff {c : Clause} {l : Literal} : c.unit? = some l ↔ c = unit l := by
  constructor
  · intro h
    unfold unit? at h
    split at h
    · next m hm =>
      cases h
      ext1
      ext1
      rw [hm, toList_unit]
    · cases h
  · rintro rfl
    rw [unit?, toList_unit]

@[simp]
theorem mem_unit {l m : Literal} : m ∈ unit l ↔ m = l := by
  simp [unit]

/-- A clause is a unit if it has just one literal. -/
theorem eq_unit_iff {c : Clause} {l : Literal} : c = unit l ↔ ∀ m, m ∈ c ↔ m = l := by
  constructor
  · rintro rfl m
    exact mem_unit
  · intro h
    have hperm : c.literals.toList.Perm [l] :=
      (List.perm_ext_iff_of_nodup c.literals.nodup (List.nodup_singleton l)).mpr fun m =>
        (h m).trans List.mem_singleton.symm
    exact Clause.ext (OrderedSet.ext (hperm.eq_singleton.trans (toList_unit l).symm))

/-- A clause without the literal and its opposite is left as it is. -/
theorem restrict_eq_self {c : Clause} {l : Literal} (hl : l ∉ c) (hneg : l.neg ∉ c) :
    c.restrict l = some c := by
  have hkeep : c.literals.toList.filter (· ≠ l.neg) = c.literals.toList := by
    rw [List.filter_eq_self]
    intro m hm
    have hne : m ≠ l.neg := by
      rintro rfl
      exact hneg hm
    exact decide_eq_true hne
  rw [restrict, if_neg hl]
  exact congrArg some (Clause.ext (OrderedSet.ext hkeep))

/-- A restriction removes at most one literal from a clause that it leaves. -/
theorem width_le_succ_of_restrict {c d : Clause} {l : Literal} (h : c.restrict l = some d) :
    c.width ≤ d.width + 1 := by
  unfold restrict at h
  split at h
  · cases h
  · cases h
    have herase : c.literals.toList.filter (· ≠ l.neg) = c.literals.toList.erase l.neg := by
      rw [c.literals.nodup.erase_eq_filter]
      exact List.filter_congr fun m _ => by by_cases hm : m = l.neg <;> simp [hm]
    have hlen := List.le_length_erase (a := l.neg) (l := c.literals.toList)
    show c.literals.toList.length ≤ (c.literals.toList.filter (· ≠ l.neg)).length + 1
    rw [herase]
    omega

end Clause

/-! ### Clause sets -/

namespace ClauseSet

theorem hasEmptyClause_iff {s : ClauseSet} :
    s.hasEmptyClause = true ↔ ∃ c ∈ s.clauses, ∀ l, l ∉ c := by
  simp [hasEmptyClause, Clause.isEmpty_iff]

theorem mem_units {s : ClauseSet} {l : Literal} : l ∈ s.units ↔ Clause.unit l ∈ s.clauses := by
  simp [units, Clause.unit?_eq_some_iff]

theorem mem_literals_of_mem_units {s : ClauseSet} {l : Literal} (h : l ∈ s.units) :
    l ∈ s.literals :=
  mem_literals.mpr ⟨_, mem_units.mp h, Clause.mem_unit.mpr rfl⟩

theorem mem_restrict {s : ClauseSet} {l : Literal} {d : Clause} :
    d ∈ (s.restrict l).clauses ↔ ∃ c ∈ s.clauses, c.restrict l = some d :=
  List.mem_filterMap

/-- A restriction has no literal over the atom that it settles. -/
theorem mem_literals_restrict {s : ClauseSet} {l m : Literal} (h : m ∈ (s.restrict l).literals) :
    m ∈ s.literals ∧ m.atom ≠ l.atom := by
  obtain ⟨d, hd, hmd⟩ := mem_literals.mp h
  obtain ⟨c, hc, hcd⟩ := mem_restrict.mp hd
  obtain ⟨hmc, hatom⟩ := (Clause.mem_of_restrict hcd).mp hmd
  exact ⟨mem_literals.mpr ⟨c, hc, hmc⟩, hatom⟩

theorem hasEmptyClause_restrict {s : ClauseSet} (l : Literal) (h : s.hasEmptyClause = true) :
    (s.restrict l).hasEmptyClause = true := by
  obtain ⟨c, hc, hempty⟩ := hasEmptyClause_iff.mp h
  have hkept : c.restrict l ≠ none := mt Clause.restrict_eq_none_iff.mp (hempty l)
  obtain ⟨d, hd⟩ := Option.ne_none_iff_exists'.mp hkept
  refine hasEmptyClause_iff.mpr ⟨d, mem_restrict.mpr ⟨c, hc, hd⟩, ?_⟩
  intro m hm
  exact hempty m ((Clause.mem_of_restrict hd).mp hm).1

/-- A restriction leaves a unit clause over another atom as it is, and falsifies the one of the
opposite literal. -/
theorem mem_units_restrict {s : ClauseSet} {l m : Literal} (hm : m ∈ s.units) (hne : m ≠ l) :
    m ∈ (s.restrict l).units ∨ (s.restrict l).hasEmptyClause = true := by
  have hunit := mem_units.mp hm
  have hl : l ∉ Clause.unit m := mt Clause.mem_unit.mp hne.symm
  have hkept : (Clause.unit m).restrict l ≠ none := mt Clause.restrict_eq_none_iff.mp hl
  by_cases hneg : l.neg ∈ Clause.unit m
  · obtain ⟨d, hd⟩ := Option.ne_none_iff_exists'.mp hkept
    have hmem := mem_restrict.mpr ⟨_, hunit, hd⟩
    refine .inr (hasEmptyClause_iff.mpr ⟨d, hmem, ?_⟩)
    intro k hk
    obtain ⟨hkm, hk⟩ := (Clause.mem_of_restrict hd).mp hk
    rw [Clause.mem_unit] at hkm hneg
    exact hk (by rw [hkm, ← hneg, Literal.neg_atom])
  · have hself := Clause.restrict_eq_self hl hneg
    exact .inl (mem_units.mpr (mem_restrict.mpr ⟨_, hunit, hself⟩))

/-! ### Wide clauses -/

/-- A clause of a set without empty and unit clauses has two literals at least. -/
theorem two_le_width {s : ClauseSet} (hempty : s.hasEmptyClause = false) (hunits : s.units = []) :
    ∀ c ∈ s.clauses, 2 ≤ c.width := by
  intro c hc
  cases hlist : c.literals.toList with
  | nil =>
    have hfalse : s.hasEmptyClause = true :=
      List.any_eq_true.mpr ⟨c, hc, by rw [Clause.isEmpty, OrderedSet.isEmpty, hlist]; rfl⟩
    rw [hempty] at hfalse
    cases hfalse
  | cons l ls =>
    cases ls with
    | nil =>
      have hunit : l ∈ s.units := List.mem_filterMap.mpr ⟨c, hc, by rw [Clause.unit?, hlist]⟩
      rw [hunits] at hunit
      cases hunit
    | cons m ls =>
      rw [Clause.width, OrderedSet.size, hlist]
      exact Nat.le_add_left 2 ls.length

theorem hasEmptyClause_restrict_of_two_le {s : ClauseSet} (h : ∀ c ∈ s.clauses, 2 ≤ c.width)
    (l : Literal) : (s.restrict l).hasEmptyClause = false := by
  rw [Bool.eq_false_iff, Ne, hasEmptyClause_iff]
  rintro ⟨d, hd, hempty⟩
  obtain ⟨c, hc, hcd⟩ := mem_restrict.mp hd
  have hwide := h c hc
  have hle := Clause.width_le_succ_of_restrict hcd
  have hpos : 0 < d.literals.toList.length := by
    show 0 < d.width
    omega
  obtain ⟨m, hm⟩ := List.length_pos_iff_exists_mem.mp hpos
  exact hempty m hm

/-! ### Pure literals -/

theorem mem_pureLiterals {s : ClauseSet} {l : Literal} :
    l ∈ s.pureLiterals ↔ l ∈ s.literals ∧ l.neg ∉ s.literals := by
  rw [pureLiterals, List.mem_filter, ← OrderedSet.mem_def, OrderedSet.mem_ofList]
  simp

theorem nodup_pureLiterals_atoms (s : ClauseSet) : (s.pureLiterals.map (·.atom)).Nodup := by
  refine Literal.nodup_atoms_iff.mpr ⟨(OrderedSet.nodup _).filter _, fun l hl hneg => ?_⟩
  exact (mem_pureLiterals.mp hl).2 (mem_pureLiterals.mp hneg).1

/-- Where the opposite of a literal occurs nowhere, a restriction only drops the clauses that
contain the literal. -/
theorem clauses_restrict_of_pure {s : ClauseSet} {l : Literal} (h : l.neg ∉ s.literals) :
    (s.restrict l).clauses = s.clauses.filter (l ∉ ·) := by
  rw [restrict, ← List.filterMap_eq_filter]
  apply List.filterMap_congr
  intro c hc
  by_cases hl : l ∈ c
  · simp [Clause.restrict_eq_none_iff.mpr hl, Option.guard, hl]
  · have hneg : l.neg ∉ c := by
      intro hmem
      exact h (mem_literals.mpr ⟨c, hc, hmem⟩)
    simp [Clause.restrict_eq_self hl hneg, Option.guard, hl]

theorem clauses_restrictAll_of_pure {s : ClauseSet} {ls : List Literal}
    (h : ∀ l ∈ ls, l.neg ∉ s.literals) :
    (s.restrictAll ls).clauses = s.clauses.filter (fun c => ∀ l ∈ ls, l ∉ c) := by
  induction ls generalizing s with
  | nil => simp [restrictAll]
  | cons l ls ih =>
    obtain ⟨hl, hls⟩ := List.forall_mem_cons.mp h
    have hrest : ∀ m ∈ ls, m.neg ∉ (s.restrict l).literals := by
      intro m hm hmem
      exact hls m hm (mem_literals_restrict hmem).1
    show ((s.restrict l).restrictAll ls).clauses = _
    rw [ih hrest, clauses_restrict_of_pure hl, List.filter_filter]
    apply List.filter_congr
    intro c _
    simp [Bool.and_comm]

end ClauseSet

end Clausal
