import Clausal.Clause

/-! # Clause sets

A clause set is the conjunction of a list of clauses, kept in the order in which they were
written; a clause may be repeated.  The set without clauses holds always, and a set with the
empty clause never does. -/

namespace Clausal

/-- A conjunction of clauses. -/
@[ext]
structure ClauseSet where
  clauses : List Clause
deriving DecidableEq

namespace ClauseSet

/-- The set with one more clause at its end. -/
def add (s : ClauseSet) (c : Clause) : ClauseSet := ⟨s.clauses ++ [c]⟩

/-- The number of clauses. -/
def size (s : ClauseSet) : Nat := s.clauses.length

/-- The literals of all clauses, clause after clause. -/
def literals (s : ClauseSet) : List Literal := s.clauses.flatMap (·.literals.toList)

/-- The atoms of the set in the order in which they first appear. -/
def atoms (s : ClauseSet) : OrderedSet Atom := OrderedSet.ofList (s.literals.map (·.atom))

/-- Whether the empty clause is among the clauses. -/
def hasEmptyClause (s : ClauseSet) : Bool := s.clauses.any (·.isEmpty)

/-- The literals of the unit clauses, in order. -/
def units (s : ClauseSet) : List Literal := s.clauses.filterMap (·.unit?)

/-- The first literal of the first clause that has one. -/
def first? (s : ClauseSet) : Option Literal := s.clauses.findSome? (·.first?)

/-- The width of the widest clause, zero if there is no clause. -/
def maxWidth (s : ClauseSet) : Nat := (s.clauses.map (·.width)).foldl max 0

/-- The number of occurrences of literals. -/
def weight (s : ClauseSet) : Nat := s.literals.length

/-- What is left of the set once `l` holds: satisfied clauses are dropped, and the opposite
literal is removed from the others. -/
def restrict (s : ClauseSet) (l : Literal) : ClauseSet := ⟨s.clauses.filterMap (·.restrict l)⟩

/-- The set restricted by several literals, one after the other. -/
def restrictAll (s : ClauseSet) (ls : List Literal) : ClauseSet := ls.foldl restrict s

/-- The literals whose opposite occurs nowhere in the set, in order of first appearance. -/
def pureLiterals (s : ClauseSet) : List Literal :=
  (OrderedSet.ofList s.literals).toList.filter (fun l => l.neg ∉ s.literals)

/-- The literals of a set that consists of unit clauses and has no two opposite ones. -/
def consistentUnits? (s : ClauseSet) : Option (List Literal) :=
  match s.clauses.mapM Clause.unit? with
  | none => none
  | some ls =>
    if ls.any (fun l => l.neg ∈ ls) then none else some (OrderedSet.ofList ls).toList

/-! ### Restriction shrinks -/

theorem mem_literals {s : ClauseSet} {l : Literal} :
    l ∈ s.literals ↔ ∃ c ∈ s.clauses, l ∈ c := by
  simp [literals, Clause.mem_def]

@[simp]
theorem mem_atoms {s : ClauseSet} {a : Atom} : a ∈ s.atoms ↔ ∃ l ∈ s.literals, l.atom = a := by
  simp [atoms]

@[simp]
theorem weight_cons (c : Clause) (cs : List Clause) :
    (ClauseSet.mk (c :: cs)).weight = c.width + (ClauseSet.mk cs).weight := by
  simp [weight, literals, Clause.width, OrderedSet.size]

/-- A restriction either drops the first clause or narrows it. -/
theorem restrict_cons (c : Clause) (cs : List Clause) (l : Literal) :
    (ClauseSet.mk (c :: cs)).restrict l =
      match c.restrict l with
      | none => (ClauseSet.mk cs).restrict l
      | some d => ⟨d :: ((ClauseSet.mk cs).restrict l).clauses⟩ := by
  cases h : c.restrict l <;> simp [restrict, h]

theorem weight_restrict_le (s : ClauseSet) (l : Literal) : (s.restrict l).weight ≤ s.weight := by
  obtain ⟨cs⟩ := s
  induction cs with
  | nil => exact Nat.le_refl _
  | cons c cs ih =>
    rw [restrict_cons, weight_cons]
    cases h : c.restrict l with
    | none => exact Nat.le_trans ih (Nat.le_add_left _ _)
    | some d =>
      rw [weight_cons]
      exact Nat.add_le_add (Clause.width_le_of_restrict h) ih

/-- Restricting by a literal over an atom of the set removes at least one occurrence. -/
theorem weight_restrict_lt {s : ClauseSet} {l m : Literal} (hm : m ∈ s.literals)
    (hatom : m.atom = l.atom) : (s.restrict l).weight < s.weight := by
  obtain ⟨cs⟩ := s
  induction cs with
  | nil => simp [literals] at hm
  | cons c cs ih =>
    have hle := weight_restrict_le ⟨cs⟩ l
    rw [restrict_cons, weight_cons]
    by_cases hc : m ∈ c
    · have hpos : 0 < c.width := List.length_pos_of_mem hc
      cases h : c.restrict l with
      | none =>
        simp only
        omega
      | some d =>
        have hlt : d.width < c.width := by
          rcases Literal.eq_or_eq_neg hatom with rfl | rfl
          · rw [Clause.restrict_eq_none_iff.mpr hc] at h
            cases h
          · exact Clause.width_lt_of_restrict h hc
        rw [weight_cons]
        exact Nat.add_lt_add_of_lt_of_le hlt hle
    · have hrest : m ∈ (ClauseSet.mk cs).literals := by
        obtain ⟨d, hd, hmd⟩ := mem_literals.mp hm
        rcases List.mem_cons.mp hd with rfl | hd
        · exact absurd hmd hc
        · exact mem_literals.mpr ⟨d, hd, hmd⟩
      have hlt := ih hrest
      cases h : c.restrict l with
      | none => exact Nat.lt_of_lt_of_le hlt (Nat.le_add_left _ _)
      | some d =>
        rw [weight_cons]
        exact Nat.add_lt_add_of_le_of_lt (Clause.width_le_of_restrict h) hlt

theorem mem_literals_of_first? {s : ClauseSet} {l : Literal} (h : s.first? = some l) :
    l ∈ s.literals := by
  obtain ⟨c, hc, hl⟩ := List.exists_of_findSome?_eq_some h
  exact mem_literals.mpr ⟨c, hc, List.mem_of_mem_head? hl⟩

end ClauseSet
end Clausal
