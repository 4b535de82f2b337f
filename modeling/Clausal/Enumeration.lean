import Clausal.Enumeration.Countdown
import Clausal.Enumeration.Space

/-! # Deciding by enumeration

Both searches count down through the vectors of a space and stop at the first whose
interpretation satisfies the clause set, so they find the greatest one.

The *forced* search tries only the vectors that agree with the unit clauses.  A template says
for each atom whether its value is forced, and a counter fills the atoms that are free. -/

namespace Clausal

/-- The result of a search: the vector it found, and the number of vectors it tried. -/
structure Enumeration where
  vector : Option Nat
  visited : Nat
deriving DecidableEq

namespace ClauseSet

/-- Whether the interpretation of a vector satisfies the set. -/
def accepts (s : ClauseSet) (space : Space) (vector : Nat) : Bool :=
  (Interpretation.ofVector space.atoms vector).satisfies s

/-- The values that unit clauses give to atoms.  Of two unit clauses over one atom the later
decides. -/
def forced (s : ClauseSet) : Interpretation := Interpretation.empty.assumeAll s.units

end ClauseSet

/-- For each place of a vector, its forced bit or nothing. -/
abbrev Template := List (Option Bool)

namespace Template

/-- The template of a clause set over a space. -/
def ofClauseSet (s : ClauseSet) (space : Space) : Template :=
  space.atoms.toList.map s.forced.get?

/-- The number of places that are not forced. -/
def free (t : Template) : Nat := t.countP (·.isNone)

/-- The vector with the forced bits of the template, and the bits of a counter at the free
places. -/
def fill : Template → Nat → Nat
  | [], _ => 0
  | some b :: rest, counter => b.toNat + 2 * fill rest counter
  | none :: rest, counter => counter % 2 + 2 * fill rest (counter / 2)

end Template

namespace Enumeration

/-- The interpretation of the vector that was found. -/
def interpretation (e : Enumeration) (space : Space) : Option Interpretation :=
  e.vector.map (Interpretation.ofVector space.atoms)

/-- Searches all vectors of the space. -/
def search (s : ClauseSet) (space : Space) : Except CapacityExceeded Enumeration :=
  space.firstWord.map fun greatest =>
    let c := Countdown.below (s.accepts space) (greatest + 1) 0
    ⟨c.found, c.visited⟩

/-- Searches the vectors of the space that agree with the forced values. -/
def searchForced (s : ClauseSet) (space : Space) : Except CapacityExceeded Enumeration :=
  space.firstWord.map fun _ =>
    let t := Template.ofClauseSet s space
    let c := Countdown.below (fun counter => s.accepts space (t.fill counter)) (Bits.count t.free) 0
    ⟨c.found.map t.fill, c.visited⟩

end Enumeration
end Clausal
