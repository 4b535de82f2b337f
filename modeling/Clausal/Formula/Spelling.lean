import Clausal.Literal

/-! # Spelling clauses as formulas

A literal is spelled `A` or `not A`, a clause as its literals joined by `or` in parentheses, and
a conjunction of formulas by `and` between them. -/

namespace Clausal

/-- The spelling of a literal. -/
def Literal.spell (l : Literal) : List Char :=
  if l.negated then "not ".toList ++ [l.atom.name] else [l.atom.name]

/-- The spelling of a clause with the given literals. -/
def spellClause (literals : List Literal) : List Char :=
  '(' :: (" or ".toList.intercalate (literals.map Literal.spell) ++ [')'])

/-- The spelling of a conjunction. -/
def spellConjunction (conjuncts : List (List Char)) : List Char :=
  " and ".toList.intercalate conjuncts

end Clausal
