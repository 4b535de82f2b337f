import Mathlib
import Clausal.ClauseSet.Marked
import Clausal.Proofs.Restriction

/-! # Stored clauses and clauses

A stored clause is proper if it is the marker or a set that is not empty
(`MarkedClause.IsProper`).  A proper clause with the literals of a clause represents it: it answers
every question as the clause does, and what a restriction leaves of the one represents what it
leaves of the other (`MarkedClause.Represents.restrict`).  Sets of stored clauses follow, clause by
clause. -/

namespace Clausal

namespace MarkedClause

variable {c : MarkedClause} {d : Clause}

/-- The marker, or an ordered set of at least one literal and without repetition. -/
inductive IsProper : MarkedClause → Prop
  | empty : IsProper .empty
  | literals {set : OrderedSet Literal} :
    set.toList ≠ [] → set.toList.Nodup → IsProper (.literals set)

theorem isProper_ofList (ls : List Literal) : (ofList ls).IsProper := by
  unfold ofList
  split
  · exact .empty
  · next hne =>
    refine .literals ?_ (OrderedSet.ofList ls).nodup
    simpa [OrderedSet.isEmpty] using hne

@[simp]
theorem toList_ofList (ls : List Literal) : (ofList ls).toList = (OrderedSet.ofList ls).toList := by
  unfold ofList
  split
  · next hempty =>
    have hnil : (OrderedSet.ofList ls).toList = [] := List.isEmpty_iff.mp hempty
    exact hnil.symm
  · rfl

/-- A stored clause that stands for a clause: it is proper and has the literals in their order. -/
structure Represents (c : MarkedClause) (d : Clause) : Prop where
  isProper : c.IsProper
  toList_eq : c.toList = d.literals.toList

theorem represents_ofList (ls : List Literal) : (ofList ls).Represents (Clause.ofList ls) where
  isProper := isProper_ofList ls
  toList_eq := toList_ofList ls

namespace Represents

/-- Represented by the marker is the empty clause, and by a set the clause of that set. -/
theorem cases_eq (h : c.Represents d) :
    (c = .empty ∧ d.literals.toList = []) ∨
      (c = .literals d.literals ∧ d.literals.toList ≠ []) := by
  obtain ⟨hproper, hlist⟩ := h
  cases hproper with
  | empty => exact .inl ⟨rfl, hlist.symm⟩
  | literals hne _ =>
    have hset := OrderedSet.ext hlist
    subst hset
    exact .inr ⟨rfl, hne⟩

theorem isEmpty_eq (h : c.Represents d) : c.isEmpty = d.isEmpty := by
  obtain ⟨rfl, hd⟩ | ⟨rfl, hd⟩ := h.cases_eq <;>
    simp [MarkedClause.isEmpty, Clause.isEmpty, OrderedSet.isEmpty, hd]

theorem width_eq (h : c.Represents d) : c.width = d.width := by
  obtain ⟨rfl, hd⟩ | ⟨rfl, -⟩ := h.cases_eq
  · simp [MarkedClause.width, Clause.width, OrderedSet.size, hd]
  · rfl

theorem first?_eq (h : c.Represents d) : c.first? = d.first? := by
  obtain ⟨rfl, hd⟩ | ⟨rfl, -⟩ := h.cases_eq
  · simp [MarkedClause.first?, Clause.first?, OrderedSet.first?, hd]
  · rfl

theorem unit?_eq (h : c.Represents d) : c.unit? = d.unit? := by
  obtain ⟨rfl, hd⟩ | ⟨rfl, -⟩ := h.cases_eq
  · simp [MarkedClause.unit?, Clause.unit?, hd]
  · rw [MarkedClause.unit?, Clause.unit?, OrderedSet.size, OrderedSet.first?]
    rcases d.literals.toList with _ | ⟨l, _ | ⟨m, rest⟩⟩
    · rfl
    · rfl
    · simp

/-- A restriction satisfies both or neither, and what it leaves of the one represents what it
leaves of the other. -/
theorem restrict (h : c.Represents d) (l : Literal) :
    Option.Rel Represents (c.restrict l) (d.restrict l) := by
  obtain ⟨rfl, hd⟩ | ⟨rfl, hd⟩ := h.cases_eq
  · have hnil : d.restrict l = some d := by
      apply Clause.restrict_eq_self <;> simp [Clause.mem_def, hd]
    rw [hnil]
    exact .some h
  · unfold MarkedClause.restrict
    dsimp only
    by_cases hl : l ∈ d.literals
    · rw [if_pos hl, Clause.restrict_eq_none_iff.mpr hl]
      exact .none
    · rw [if_neg hl]
      by_cases hneg : l.neg ∈ d.literals
      · have hleft : d.restrict l = some ⟨d.literals.filter (· ≠ l.neg)⟩ := if_neg hl
        rw [if_pos hneg, hleft]
        refine .some ⟨isProper_ofList _, ?_⟩
        rw [toList_ofList]
        exact OrderedSet.toList_ofList_of_nodup (d.literals.nodup.filter _)
      · rw [if_neg hneg, Clause.restrict_eq_self hl hneg]
        exact .some h

end Represents

end MarkedClause

/-! ### Sets of stored clauses -/

namespace MarkedClauseSet

variable {m : MarkedClauseSet} {s : ClauseSet}

/-- The stored clauses represent the clauses of a set, one by one. -/
def Represents (m : MarkedClauseSet) (s : ClauseSet) : Prop :=
  List.Forall₂ MarkedClause.Represents m.clauses s.clauses

/-- The two sets give the same answers to all questions that a search asks. -/
structure AnswersLike (m : MarkedClauseSet) (s : ClauseSet) : Prop where
  hasEmptyClause : m.hasEmptyClause = s.hasEmptyClause
  units : m.units = s.units
  first? : m.first? = s.first?
  maxWidth : m.maxWidth = s.maxWidth
  atoms : m.atoms = s.atoms

/-- The set of several rows represents the set of their clauses, and no other. -/
theorem represents_ofRows_iff {rows : List (List Literal)} :
    (ofRows rows).Represents s ↔ s = ⟨rows.map Clause.ofList⟩ := by
  obtain ⟨cs⟩ := s
  unfold Represents ofRows
  rw [ClauseSet.mk.injEq]
  induction rows generalizing cs with
  | nil => simp
  | cons row rows ih =>
    cases cs with
    | nil => simp
    | cons c cs =>
      rw [List.map_cons, List.map_cons, List.forall₂_cons, List.cons.injEq, ih]
      refine and_congr_left fun _ => ⟨fun h => ?_, ?_⟩
      · refine Clause.ext (OrderedSet.ext ?_)
        rw [← h.toList_eq, MarkedClause.toList_ofList]
        rfl
      · rintro rfl
        exact MarkedClause.represents_ofList row

namespace Represents

theorem isProper (h : m.Represents s) : ∀ c ∈ m.clauses, c.IsProper := by
  have hboth : List.Forall₂ (fun c d => c.IsProper ∧ c.Represents d) m.clauses s.clauses :=
    h.imp fun _ _ hcd => ⟨hcd.isProper, hcd⟩
  exact ((List.forall₂_and_left _ _).mp hboth).1

theorem add (h : m.Represents s) (ls : List Literal) :
    (m.add (MarkedClause.ofList ls)).Represents (s.add (Clause.ofList ls)) :=
  List.rel_append h (.cons (MarkedClause.represents_ofList ls) .nil)

theorem restrict (h : m.Represents s) (l : Literal) :
    (m.restrict l).Represents (s.restrict l) :=
  List.rel_filterMap (R := MarkedClause.Represents) (fun _ _ hcd => hcd.restrict l) h

/-- What is the same for each stored clause and its clause is the same along the two lists. -/
theorem map_eq {α : Type} {f : MarkedClause → α} {g : Clause → α} (h : m.Represents s)
    (hfg : ∀ c d, c.Represents d → f c = g d) : m.clauses.map f = s.clauses.map g := by
  have hmap : List.Forall₂ Eq (m.clauses.map f) (s.clauses.map g) :=
    List.rel_map (P := Eq) (fun c d hcd => hfg c d hcd) h
  rwa [List.forall₂_eq_eq_eq] at hmap

theorem answersLike (h : m.Represents s) : m.AnswersLike s where
  hasEmptyClause := by
    have hempty := h.map_eq fun _ _ hcd => hcd.isEmpty_eq
    unfold MarkedClauseSet.hasEmptyClause ClauseSet.hasEmptyClause
    simpa [List.any_map] using congrArg (List.any · id) hempty
  units := by
    have hunits := h.map_eq fun _ _ hcd => hcd.unit?_eq
    unfold MarkedClauseSet.units ClauseSet.units
    simpa [List.filterMap_map] using congrArg (List.filterMap id) hunits
  first? := by
    have hfirst := h.map_eq fun _ _ hcd => hcd.first?_eq
    unfold MarkedClauseSet.first? ClauseSet.first?
    simpa [List.findSome?_map] using congrArg (List.findSome? id) hfirst
  maxWidth := by
    have hwidth := h.map_eq fun _ _ hcd => hcd.width_eq
    exact congrArg (List.foldl max 0) hwidth
  atoms := by
    have hlists := h.map_eq fun _ _ hcd => hcd.toList_eq
    rw [MarkedClauseSet.atoms, ClauseSet.atoms, ClauseSet.literals, List.flatMap_def,
      List.flatMap_def, hlists]

end Represents

end MarkedClauseSet
end Clausal
