/-! # Connectives

Formulas join atoms with words.  Four words stand before a formula and five stand between two;
the temporal ones (`always`, `eventually`, `next`, `until`) are read but lie outside the
propositional fragment. -/

namespace Clausal

/-- A connective that stands before a formula. -/
inductive Unary where
  | not
  | always
  | eventually
  | next
deriving DecidableEq

/-- A connective that stands between two formulas. -/
inductive Binary where
  | and
  | or
  | implies
  | equivalent
  | until
deriving DecidableEq

namespace Unary

/-- The word for a connective. -/
def word : Unary → List Char
  | not => "not".toList
  | always => "always".toList
  | eventually => "eventually".toList
  | next => "next".toList

/-- The connective for a word. -/
def ofWord? (w : List Char) : Option Unary := [not, always, eventually, next].find? (·.word = w)

/-- Whether the connective is propositional. -/
def isPropositional (op : Unary) : Bool := op = not

theorem ofWord?_eq_some_iff {w : List Char} {op : Unary} : ofWord? w = some op ↔ op.word = w := by
  constructor
  · intro h
    simpa using List.find?_some h
  · rintro rfl
    cases op <;> decide

end Unary

namespace Binary

/-- The word for a connective. -/
def word : Binary → List Char
  | and => "and".toList
  | or => "or".toList
  | implies => "implies".toList
  | equivalent => "equivalent".toList
  | «until» => "until".toList

/-- The connective for a word. -/
def ofWord? (w : List Char) : Option Binary :=
  [and, or, implies, equivalent, «until»].find? (·.word = w)

/-- Whether the connective is propositional. -/
def isPropositional (op : Binary) : Bool := op ≠ «until»

theorem ofWord?_eq_some_iff {w : List Char} {op : Binary} : ofWord? w = some op ↔ op.word = w := by
  constructor
  · intro h
    simpa using List.find?_some h
  · rintro rfl
    cases op <;> decide

end Binary
end Clausal
