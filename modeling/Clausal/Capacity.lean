/-! # Capacity of a vector

A vector gives every atom one bit, and a single word has room for 31 of them.  Whatever needs
all atoms in one word fails with the number of atoms it was given and the number that is allowed. -/

namespace Clausal

/-- The number of atoms that one word of bits holds. -/
def wordBits : Nat := 31

/-- More atoms than one word has bits. -/
structure CapacityExceeded where
  atoms : Nat
  limit : Nat
deriving DecidableEq

/-- The wording of a capacity failure. -/
def CapacityExceeded.message (e : CapacityExceeded) : String :=
  toString e.atoms ++ " atoms exceed the enumeration limit of " ++ toString e.limit

/-- A value that exists only if `atoms` many atoms fit into one word. -/
def withinCapacity {α : Type} (atoms : Nat) (value : α) : Except CapacityExceeded α :=
  if atoms ≤ wordBits then .ok value else .error ⟨atoms, wordBits⟩

end Clausal
