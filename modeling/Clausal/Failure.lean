import Clausal.Capacity
import Clausal.ClauseSet.BraceForm
import Clausal.Formula.ClauseReader
import Clausal.Formula.WellFormed

/-! # Failures

Why a text is not accepted, or a clause set is too large to enumerate. -/

namespace Clausal

/-- The cause of a failure. -/
inductive Failure where
  /-- The text has no words. -/
  | empty
  | malformed (faults : List SyntaxFault)
  | notPropositional (words : List (List Char))
  | notConjunctive (faults : List ClauseFault)
  | capacity (e : CapacityExceeded)
  | braceForm (fault : BraceFault)
deriving DecidableEq

/-- The wording of a failure. -/
def Failure.message : Failure → String
  | empty => "formula is empty"
  | malformed faults =>
    "formula is syntactically invalid: " ++ "; ".intercalate (faults.map SyntaxFault.message)
  | notPropositional words =>
    "formula is not propositional, disallowed words: " ++
      ", ".intercalate (words.map String.ofList)
  | notConjunctive faults =>
    "formula is not in conjunctive normal form: " ++
      "; ".intercalate (faults.map ClauseFault.message)
  | capacity e => e.message
  | braceForm fault => "invalid clause text: " ++ fault.message

end Clausal
