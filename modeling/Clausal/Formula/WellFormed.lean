import Clausal.Formula.Token
import Clausal.Text.Quoted

/-! # Well-formed formulas

A formula is well formed if its tokens alternate as in an infix expression: connectives that
stand before a formula, an atom, and then any number of times a connective between formulas
followed by the same.  Parentheses only have to agree in number.

All broken rules are reported, each at its token, and at the end those about the whole
formula. -/

namespace Clausal

/-- A broken rule of well-formedness. -/
inductive SyntaxFault where
  | badStart (word : List Char)
  | adjacentAtoms (atom previous : Atom)
  | missingOperand (op : Binary) (previous : List Char)
  | misplacedUnary (op : Unary) (previous : Atom)
  | unknownWord (word : List Char)
  | looseParens (text : List Char)
  | noFinalAtom
  | unclosed (left right : Nat)
  | unopened (left right : Nat)
deriving DecidableEq

namespace SyntaxFault

open Text (quoted)

/-- The wording of a fault. -/
def message : SyntaxFault → String
  | badStart word => "first term " ++ quoted word ++ " is not an atom or unary operator"
  | adjacentAtoms atom previous =>
    "atom " ++ quoted [atom.name] ++ " after atom " ++ quoted [previous.name]
  | missingOperand op previous =>
    "binary operator " ++ quoted op.word ++ " after operator " ++ quoted previous
  | misplacedUnary op previous =>
    "unary operator " ++ quoted op.word ++ " after atom " ++ quoted [previous.name]
  | unknownWord word => "unknown word " ++ quoted word
  | looseParens text => "parenthesis " ++ quoted text ++ " is not attached to an atom"
  | noFinalAtom => "formula does not end in an atom"
  | unclosed left right =>
    "more left parentheses (" ++ toString left ++ ") than right (" ++ toString right ++ ")"
  | unopened left right =>
    "more right parentheses (" ++ toString right ++ ") than left (" ++ toString left ++ ")"

end SyntaxFault

/-- The term that decides what may come next. -/
inductive Term where
  | atom (a : Atom)
  | operator (word : List Char)
deriving DecidableEq

namespace Term

/-- The deciding term after a token.  Loose parentheses leave it as it is, and so does an
unknown word unless it comes first. -/
def after : Option Term → Token.Kind → Option Term
  | _, .atom a => some (atom a)
  | _, .unary op => some (operator op.word)
  | _, .binary op => some (operator op.word)
  | none, .unknown word => some (operator word)
  | previous, _ => previous

end Term

/-- The faults at a token that follows the given term. -/
def faultsAt (previous : Option Term) (t : Token) : List SyntaxFault :=
  match t.kind, previous with
  | .atom a, some (.atom p) => [.adjacentAtoms a p]
  | .atom _, _ => []
  | .unary op, some (.atom p) => [.misplacedUnary op p]
  | .unary _, _ => []
  | .binary op, none => [.badStart op.word]
  | .binary op, some (.operator p) => [.missingOperand op p]
  | .binary _, some (.atom _) => []
  | .unknown word, none => [.badStart word, .unknownWord word]
  | .unknown word, some _ => [.unknownWord word]
  | .parens, _ => [.looseParens t.text]

/-- The faults in the sequence of tokens that follows the given term. -/
def sequenceFaults : Option Term → List Token → List SyntaxFault
  | some (.atom _), [] => []
  | _, [] => [.noFinalAtom]
  | previous, t :: ts => faultsAt previous t ++ sequenceFaults (Term.after previous t.kind) ts

/-- The fault in the number of parentheses. -/
def parenFaults (ts : List Token) : List SyntaxFault :=
  let left := Token.total Token.opens ts
  let right := Token.total Token.closes ts
  if right < left then [.unclosed left right]
  else if left < right then [.unopened left right]
  else []

/-- All faults of a formula. -/
def syntaxFaults (ts : List Token) : List SyntaxFault := sequenceFaults none ts ++ parenFaults ts

end Clausal
