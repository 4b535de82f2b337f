import Clausal.Atom

/-! # Literals

A literal is an atom or its negation, written `A` or `-A`. -/

namespace Clausal

/-- An atom or its negation. -/
structure Literal where
  atom : Atom
  negated : Bool
deriving DecidableEq

namespace Literal

/-- The literal that holds when the atom does. -/
def positive (a : Atom) : Literal := ⟨a, false⟩

/-- The literal that holds when the atom does not. -/
def negative (a : Atom) : Literal := ⟨a, true⟩

/-- The opposite literal over the same atom. -/
def neg (l : Literal) : Literal := ⟨l.atom, !l.negated⟩

/-- The truth value of the literal when its atom has the given one. -/
def eval (l : Literal) (value : Bool) : Bool := value ^^ l.negated

/-- The value of its atom under which the literal holds. -/
def asserted (l : Literal) : Bool := !l.negated

@[simp] theorem neg_atom (l : Literal) : l.neg.atom = l.atom := rfl

@[simp] theorem neg_neg (l : Literal) : l.neg.neg = l := by simp [neg]

theorem neg_ne (l : Literal) : l.neg ≠ l := by
  intro h
  have := congrArg Literal.negated h
  simp [neg] at this

/-- A literal over the atom of another is that literal or its opposite. -/
theorem eq_or_eq_neg {l m : Literal} (h : m.atom = l.atom) : m = l ∨ m = l.neg := by
  obtain ⟨a, p⟩ := l
  obtain ⟨b, q⟩ := m
  cases h
  cases p <;> cases q <;> simp [neg]

theorem eval_eq_true_iff {l : Literal} {value : Bool} :
    l.eval value = true ↔ value = l.asserted := by
  cases value <;> simp [eval, asserted]

/-- The written form: the name of the atom, after a hyphen if the literal is negated. -/
def render (l : Literal) : List Char :=
  if l.negated then ['-', l.atom.name] else [l.atom.name]

/-- Reads a written literal. -/
def parse? : List Char → Option Literal
  | '-' :: text => (Atom.ofText? text).map negative
  | text => (Atom.ofText? text).map positive

end Literal
end Clausal
