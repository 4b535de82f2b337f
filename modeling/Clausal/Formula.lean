import Clausal.Failure
import Clausal.Formula.Fragment

/-! # Formulas

A text becomes a formula if it has words and is well formed; the formula keeps the text without
its outer parentheses.  Only a propositional formula is read as a conjunction of clauses. -/

namespace Clausal

/-- An accepted text. -/
structure Formula where
  text : List Char
deriving DecidableEq

namespace Formula

/-- The faults of a text that has words. -/
def faults (text : List Char) : Except Failure (List SyntaxFault) :=
  let tokens := Token.scan text
  if tokens = [] then .error .empty else .ok (syntaxFaults tokens)

/-- Accepts a text without faults. -/
def parse (text : List Char) : Except Failure Formula :=
  match faults text with
  | .error e => .error e
  | .ok [] => .ok ⟨stripOuterParens text⟩
  | .ok (fault :: more) => .error (.malformed (fault :: more))

/-- The words of the formula outside the propositional fragment. -/
def outsideWords (f : Formula) : List (List Char) := Clausal.outsideWords f.text

/-- Whether the formula is propositional. -/
def isPropositional (f : Formula) : Bool := Clausal.isPropositional f.text

/-- Fails unless the formula is propositional. -/
def requireFragment (f : Formula) : Except Failure Unit :=
  if f.isPropositional then .ok () else .error (.notPropositional f.outsideWords)

/-- The clauses of a propositional formula, or its violations of conjunctive normal form. -/
def reading (f : Formula) : Except Failure (Except (List ClauseFault) ClauseSet) :=
  f.requireFragment.map fun _ => clausesOfText f.text

/-- The clauses of a propositional formula in conjunctive normal form. -/
def toClauseSet (f : Formula) : Except Failure ClauseSet :=
  match f.reading with
  | .error e => .error e
  | .ok (.error faults) => .error (.notConjunctive faults)
  | .ok (.ok s) => .ok s

/-- Whether the formula is propositional and in conjunctive normal form. -/
def isConjunctive (f : Formula) : Bool := f.toClauseSet.isOk

end Formula
end Clausal
