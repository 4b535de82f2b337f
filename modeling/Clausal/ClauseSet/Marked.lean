import Clausal.ClauseSet

/-! # Marked clauses

A clause can be stored in two forms: a marker for the clause without literals, or an ordered set of
literals.  Nothing in the second form keeps its set from being empty, and a clause stored so is not
taken for the empty clause: no conflict is seen in it, and no literal is found to branch on.  Every
operation that makes a set of literals therefore goes through `MarkedClause.ofList`, which sets the
marker if there are none. -/

namespace Clausal

/-- A stored clause. -/
inductive MarkedClause where
  /-- The marker. -/
  | empty
  | literals (set : OrderedSet Literal)
deriving DecidableEq

namespace MarkedClause

/-- The clause of a list of literals, in the order of their first occurrences. -/
def ofList (ls : List Literal) : MarkedClause :=
  if (OrderedSet.ofList ls).isEmpty then empty else literals (OrderedSet.ofList ls)

/-- The literals in order. -/
def toList : MarkedClause → List Literal
  | empty => []
  | literals set => set.toList

/-- Whether this is the marker. -/
def isEmpty : MarkedClause → Bool
  | empty => true
  | literals _ => false

/-- The number of literals. -/
def width : MarkedClause → Nat
  | empty => 0
  | literals set => set.size

/-- The earliest literal. -/
def first? : MarkedClause → Option Literal
  | empty => none
  | literals set => set.first?

/-- The only literal of a clause that has just one. -/
def unit? : MarkedClause → Option Literal
  | empty => none
  | literals set => if set.size = 1 then set.first? else none

/-- What is left of a clause once `l` holds; nothing, if it is then satisfied.  The clause is
stored anew only if it loses a literal. -/
def restrict (c : MarkedClause) (l : Literal) : Option MarkedClause :=
  match c with
  | empty => some empty
  | literals set =>
    if l ∈ set then none
    else if l.neg ∈ set then some (ofList (set.toList.filter (· ≠ l.neg)))
    else some (literals set)

end MarkedClause

/-- A conjunction of stored clauses. -/
structure MarkedClauseSet where
  clauses : List MarkedClause
deriving DecidableEq

namespace MarkedClauseSet

/-- The set of the clauses of several lists of literals. -/
def ofRows (rows : List (List Literal)) : MarkedClauseSet := ⟨rows.map MarkedClause.ofList⟩

/-- The set with one more clause at its end. -/
def add (m : MarkedClauseSet) (c : MarkedClause) : MarkedClauseSet := ⟨m.clauses ++ [c]⟩

/-- The atoms of the set in the order in which they first appear. -/
def atoms (m : MarkedClauseSet) : OrderedSet Atom :=
  OrderedSet.ofList ((m.clauses.flatMap (·.toList)).map (·.atom))

/-- Whether the marker is among the clauses. -/
def hasEmptyClause (m : MarkedClauseSet) : Bool := m.clauses.any (·.isEmpty)

/-- The literals of the unit clauses, in order. -/
def units (m : MarkedClauseSet) : List Literal := m.clauses.filterMap (·.unit?)

/-- The first literal of the first clause that has one. -/
def first? (m : MarkedClauseSet) : Option Literal := m.clauses.findSome? (·.first?)

/-- The width of the widest clause, zero if there is no clause. -/
def maxWidth (m : MarkedClauseSet) : Nat := (m.clauses.map (·.width)).foldl max 0

/-- What is left of the set once `l` holds. -/
def restrict (m : MarkedClauseSet) (l : Literal) : MarkedClauseSet :=
  ⟨m.clauses.filterMap (·.restrict l)⟩

end MarkedClauseSet
end Clausal
