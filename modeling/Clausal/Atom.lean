import Clausal.Text.Alphanumeric

/-! # Atoms

An atom is a propositional variable.  Its name is a single alphanumeric character, so an atom
never has to be told apart from the parentheses, braces, commas and signs around it. -/

namespace Clausal

/-- A propositional variable. -/
structure Atom where
  name : Char
  alphanumeric : Text.isAlphanumeric name = true
deriving DecidableEq

namespace Atom

/-- The atom with a given name, if the character can name one. -/
def ofChar? (c : Char) : Option Atom :=
  if h : Text.isAlphanumeric c = true then some ⟨c, h⟩ else none

/-- The atom that a text consists of, if it is a single alphanumeric character. -/
def ofText? : List Char → Option Atom
  | [c] => ofChar? c
  | _ => none

@[simp]
theorem ofChar?_name (a : Atom) : ofChar? a.name = some a := by
  simp [ofChar?, a.alphanumeric]

theorem ofChar?_eq_some_iff {c : Char} {a : Atom} : ofChar? c = some a ↔ a.name = c := by
  constructor
  · intro h
    unfold ofChar? at h
    split at h
    · cases h; rfl
    · cases h
  · rintro rfl
    exact ofChar?_name a

end Atom
end Clausal
