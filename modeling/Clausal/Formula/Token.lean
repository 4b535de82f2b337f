import Clausal.Atom
import Clausal.Formula.Connective
import Clausal.Text.Blank

/-! # Tokens

Each word of a formula is one token.  Its parentheses are counted: all that lead the word, and
then all that trail the rest.  What is left between them is an atom, a connective or an unknown
word.  Trailing parentheses belong to atoms only; another word keeps them, which makes it
unknown. -/

namespace Clausal

/-- What a token stands for. -/
inductive Token.Kind where
  | atom (a : Atom)
  | unary (op : Unary)
  | binary (op : Binary)
  | unknown (word : List Char)
  /-- Nothing but parentheses. -/
  | parens
deriving DecidableEq

/-- A word of a formula, with the parentheses counted that it opens and closes. -/
structure Token where
  text : List Char
  opens : Nat
  closes : Nat
  kind : Token.Kind
deriving DecidableEq

namespace Token

namespace Kind

/-- The kind of a word that is neither an atom nor carries parentheses. -/
def ofWord (w : List Char) : Kind :=
  match Unary.ofWord? w with
  | some op => unary op
  | none =>
    match Binary.ofWord? w with
    | some op => binary op
    | none => unknown w

/-- The word of a kind, empty if there are only parentheses. -/
def word : Kind → List Char
  | atom a => [a.name]
  | unary op => op.word
  | binary op => op.word
  | unknown w => w
  | parens => []

end Kind

/-- The kind of a word from its part after the leading parentheses, and its core between the
leading and the trailing ones. -/
def kindOf (body core : List Char) : Kind :=
  match Atom.ofText? core with
  | some a => .atom a
  | none =>
    if core = [] then .parens
    else if core = body then Kind.ofWord core
    else .unknown body

/-- The token of a word. -/
def ofWord (text : List Char) : Token :=
  let body := text.dropWhile (· = '(')
  let core := Text.dropTrailing (· = ')') body
  ⟨text, text.length - body.length, body.length - core.length, kindOf body core⟩

/-- The sum of a count over tokens. -/
def total (count : Token → Nat) (ts : List Token) : Nat := ts.foldr (fun t n => count t + n) 0

/-- The tokens of a text. -/
def scan (text : List Char) : List Token := (Text.words text).map ofWord

end Token
end Clausal
