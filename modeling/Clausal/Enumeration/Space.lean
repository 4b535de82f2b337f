import Clausal.Capacity
import Clausal.Interpretation

/-! # Spaces of vectors

The space over an ordered set of atoms numbers the atoms by their places and lays them out in
words of 31 bits: the atom at place `i` has bit `i % 31` of word `i / 31`.  A search counts down
from the vector with every bit set, which has to fit into the first word. -/

namespace Clausal

/-- The vectors over an ordered set of atoms. -/
structure Space where
  atoms : OrderedSet Atom
deriving DecidableEq

namespace Space

/-- The number of words, at least one. -/
def wordCount (space : Space) : Nat := max 1 ((space.atoms.size + (wordBits - 1)) / wordBits)

/-- The words in which the bit of every atom is set. -/
def words (space : Space) : List Nat :=
  (List.range space.wordCount).map fun w =>
    Bits.count (min wordBits (space.atoms.size - wordBits * w)) - 1

/-- Whether one word has a bit for every atom. -/
def fits (space : Space) : Bool := space.atoms.size ≤ wordBits

/-- The first word, if it has a bit for every atom. -/
def firstWord (space : Space) : Except CapacityExceeded Nat :=
  withinCapacity space.atoms.size (space.words.headD 0)

/-- The place of an atom. -/
def bit? (space : Space) (a : Atom) : Option Nat := space.atoms.indexOf? a

/-- The space over the atoms of a clause set. -/
def ofClauseSet (s : ClauseSet) : Space := ⟨s.atoms⟩

end Space
end Clausal
