import Clausal.Literal
import Clausal.OrderedSet

/-! # Clauses

A clause is the disjunction of an ordered set of literals.  The clause without literals is the
*empty clause*, which nothing satisfies.  A clause may hold both literals of one atom.

Restricting a clause by a literal is assuming that the literal holds: a clause that contains it
is satisfied and disappears, and otherwise the opposite literal is removed. -/

namespace Clausal

/-- A disjunction of literals. -/
@[ext]
structure Clause where
  literals : OrderedSet Literal
deriving DecidableEq

namespace Clause

/-- The clause of a list of literals, in the order of their first occurrences. -/
def ofList (literals : List Literal) : Clause := ⟨OrderedSet.ofList literals⟩

/-- The clause of a single literal. -/
def unit (l : Literal) : Clause := ofList [l]

instance : Membership Literal Clause := ⟨fun c l => l ∈ c.literals⟩

instance (c : Clause) (l : Literal) : Decidable (l ∈ c) :=
  inferInstanceAs (Decidable (l ∈ c.literals))

theorem mem_def {c : Clause} {l : Literal} : l ∈ c ↔ l ∈ c.literals.toList := Iff.rfl

@[simp]
theorem mem_ofList {literals : List Literal} {l : Literal} : l ∈ ofList literals ↔ l ∈ literals :=
  OrderedSet.mem_ofList

/-- Whether this is the empty clause. -/
def isEmpty (c : Clause) : Bool := c.literals.isEmpty

/-- The number of literals. -/
def width (c : Clause) : Nat := c.literals.size

/-- The earliest literal. -/
def first? (c : Clause) : Option Literal := c.literals.first?

/-- The only literal of a clause that has just one. -/
def unit? (c : Clause) : Option Literal :=
  match c.literals.toList with
  | [l] => some l
  | _ => none

/-- What is left of a clause once `l` holds; nothing, if it is then satisfied. -/
def restrict (c : Clause) (l : Literal) : Option Clause :=
  if l ∈ c then none else some ⟨c.literals.filter (· ≠ l.neg)⟩

/-! ### Literals of a restriction -/

theorem restrict_eq_none_iff {c : Clause} {l : Literal} : c.restrict l = none ↔ l ∈ c := by
  simp [restrict]

theorem mem_removing {c : Clause} {l m : Literal} :
    m ∈ (⟨c.literals.filter (· ≠ l.neg)⟩ : Clause) ↔ m ∈ c ∧ m ≠ l.neg :=
  OrderedSet.mem_filter.trans (and_congr_right fun _ => by simp)

/-- A restriction that does not satisfy a clause takes away its literals over the settled atom. -/
theorem toList_of_restrict {c d : Clause} {l : Literal} (h : c.restrict l = some d) :
    d.literals.toList = c.literals.toList.filter (·.atom ≠ l.atom) := by
  unfold restrict at h
  split at h
  · cases h
  · next hl =>
    cases h
    refine List.filter_congr fun m hm => ?_
    rw [decide_eq_decide]
    refine not_congr ⟨fun hneg => by rw [hneg, Literal.neg_atom], fun hatom => ?_⟩
    refine (Literal.eq_or_eq_neg hatom).resolve_left ?_
    rintro rfl
    exact hl hm

/-- A restriction keeps the literals over other atoms. -/
theorem mem_of_restrict {c d : Clause} {l m : Literal} (h : c.restrict l = some d) :
    m ∈ d ↔ m ∈ c ∧ m.atom ≠ l.atom := by
  rw [mem_def, mem_def, toList_of_restrict h, List.mem_filter, decide_eq_true_eq]

theorem width_le_of_restrict {c d : Clause} {l : Literal} (h : c.restrict l = some d) :
    d.width ≤ c.width := by
  rw [width, OrderedSet.size, toList_of_restrict h]
  exact List.length_filter_le _ _

/-- A restriction by the opposite of a literal of the clause is narrower. -/
theorem width_lt_of_restrict {c d : Clause} {l : Literal} (h : c.restrict l = some d)
    (hl : l.neg ∈ c) : d.width < c.width := by
  rw [width, OrderedSet.size, toList_of_restrict h]
  exact List.length_filter_lt_length_iff_exists.mpr ⟨l.neg, hl, by simp⟩

end Clause
end Clausal
