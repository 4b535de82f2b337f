import Clausal.Formula.OuterParens
import Clausal.Formula.Token

/-! # The propositional fragment

A formula is propositional if it uses no words but `not`, `and`, `or`, `implies` and
`equivalent`. -/

namespace Clausal

/-- The word of a token that lies outside the propositional fragment. -/
def Token.Kind.outsideWord? : Token.Kind → Option (List Char)
  | unary op => if op.isPropositional then none else some op.word
  | binary op => if op.isPropositional then none else some op.word
  | unknown word => some word
  | atom _ => none
  | parens => none

/-- The words of a text outside the propositional fragment, in order. -/
def outsideWords (text : List Char) : List (List Char) :=
  (Token.scan (stripOuterParens text)).filterMap (·.kind.outsideWord?)

/-- Whether a text stays inside the propositional fragment. -/
def isPropositional (text : List Char) : Bool := (outsideWords text).isEmpty

end Clausal
