import Clausal.ClauseSet
import Clausal.Formula.OuterParens
import Clausal.Formula.Token
import Clausal.Text.Quoted

/-! # Formulas as conjunctions of clauses

A formula in conjunctive normal form is a sequence of conjuncts joined by `and`.  A conjunct is
a literal, which is a unit clause, or a span in parentheses whose literals are joined by `or`
and make up one clause, however they are grouped inside.

The reader goes once through the tokens and reports every violation; the clauses count only if
there is none. -/

namespace Clausal

/-- A violation of conjunctive normal form. -/
inductive ClauseFault where
  | excludedConnective (op : Binary)
  | orOutsideClause
  | connectiveInside (op : Binary)
  | notWithoutAtom (text : List Char)
  | finalNot
  | unexpectedWord (text : List Char)
  | noAnd
  | strayAnd
  | emptySpan
  | unbalanced
  | noClauses
deriving DecidableEq

namespace ClauseFault

open Text (quoted)

/-- The wording of a violation. -/
def message : ClauseFault → String
  | excludedConnective op => quoted op.word ++ " is not allowed in CNF"
  | orOutsideClause => "'or' between clauses"
  | connectiveInside op => quoted op.word ++ " inside a clause"
  | notWithoutAtom text => "'not' must be followed by a single atom, found " ++ quoted text
  | finalNot => "formula ends with 'not'"
  | unexpectedWord text => "unexpected word " ++ quoted text
  | noAnd => "clauses must be joined by exactly one 'and'"
  | strayAnd => "'and' without a clause on both sides"
  | emptySpan => "parenthesized span without literals"
  | unbalanced => "unbalanced parentheses"
  | noClauses => "formula has no clauses"

end ClauseFault

/-- What the reader remembers between two tokens. -/
structure ClauseReader where
  /-- The number of parentheses that are open. -/
  depth : Nat
  /-- The literals of the open span. -/
  span : List Literal
  /-- Whether a conjunct has begun. -/
  started : Bool
  /-- The number of `and`s since the last conjunct began. -/
  ands : Nat
  /-- Whether a `not` waits for its atom. -/
  negating : Bool
  clauses : List Clause
  faults : List ClauseFault
deriving DecidableEq

namespace ClauseReader

/-- The reader before the first token. -/
def start : ClauseReader := ⟨0, [], false, 0, false, [], []⟩

/-- Adds a fault to the report. -/
def report (r : ClauseReader) (fault : ClauseFault) : ClauseReader :=
  { r with faults := r.faults ++ [fault] }

/-- Adds a clause. -/
def keep (r : ClauseReader) (c : Clause) : ClauseReader :=
  { r with clauses := r.clauses ++ [c] }

/-- Begins a conjunct.  The first one follows no `and`, and every other exactly one. -/
def startConjunct (r : ClauseReader) : ClauseReader :=
  let checked :=
    if r.ands = (if r.started then 1 else 0) then r
    else if r.ands = 0 then r.report .noAnd
    else r.report .strayAnd
  { checked with started := true, ands := 0 }

/-- A literal belongs to the open span, and makes up a conjunct of its own outside any. -/
def literal (r : ClauseReader) (l : Literal) : ClauseReader :=
  if r.depth = 0 then r.startConjunct.keep (Clause.unit l)
  else { r with span := r.span ++ [l] }

/-- Opens parentheses.  Outside any span they begin a conjunct. -/
def openParens (r : ClauseReader) (n : Nat) : ClauseReader :=
  if n = 0 then r
  else if r.depth = 0 then { r.startConjunct with depth := n, span := [] }
  else { r with depth := r.depth + n }

/-- Ends the open span, whose literals make up a clause. -/
def endSpan (r : ClauseReader) : ClauseReader :=
  let closed := { r with depth := 0, span := [] }
  if r.span = [] then closed.report .emptySpan else closed.keep (Clause.ofList r.span)

/-- Closes parentheses.  Each one that closes nothing is reported. -/
def closeParens (r : ClauseReader) (n : Nat) : ClauseReader :=
  if n < r.depth then { r with depth := r.depth - n }
  else
    let closed := if r.depth = 0 then r else r.endSpan
    { closed with faults := closed.faults ++ List.replicate (n - r.depth) .unbalanced }

/-- Takes in what a token stands for, apart from its parentheses. -/
def term (r : ClauseReader) (t : Token) : ClauseReader :=
  match t.kind with
  | .atom a => r.literal (Literal.positive a)
  | .unary .not => { r with negating := true }
  | .unary op => r.report (.unexpectedWord op.word)
  | .binary .and =>
    if r.depth = 0 then { r with ands := r.ands + 1 } else r.report (.connectiveInside .and)
  | .binary .or => if r.depth = 0 then r.report .orOutsideClause else r
  | .binary .until => r.report (.unexpectedWord Binary.until.word)
  | .binary op =>
    let reported := r.report (.excludedConnective op)
    if r.depth = 0 then reported else reported.report (.connectiveInside op)
  | .unknown word => r.report (.unexpectedWord word)
  | .parens => r.report (.unexpectedWord t.text)

/-- Reads a token that no `not` waits for. -/
def readPlain (r : ClauseReader) (t : Token) : ClauseReader :=
  ((r.openParens t.opens).term t).closeParens t.closes

/-- Reads a token.  A `not` needs an atom right after it, with no parenthesis between. -/
def read (r : ClauseReader) (t : Token) : ClauseReader :=
  if r.negating then
    let settled := { r with negating := false }
    match t.kind, t.opens with
    | .atom a, 0 => (settled.literal (Literal.negative a)).closeParens t.closes
    | _, _ => (settled.report (.notWithoutAtom t.text)).readPlain t
  else r.readPlain t

/-- The faults that show at the end of the formula. -/
def endFaults (r : ClauseReader) : List ClauseFault :=
  (if r.negating then [.finalNot] else if 0 < r.ands then [.strayAnd] else []) ++
    (if 0 < r.depth then [.unbalanced] else [])

/-- All faults of a formula that has been read. -/
def allFaults (r : ClauseReader) : List ClauseFault :=
  let faults := r.faults ++ r.endFaults
  if faults = [] ∧ r.clauses = [] then [.noClauses] else faults

/-- The clauses that were read, or the faults if there are any. -/
def finish (r : ClauseReader) : Except (List ClauseFault) ClauseSet :=
  if r.allFaults = [] then .ok ⟨r.clauses⟩ else .error r.allFaults

end ClauseReader

/-- The clauses of a sequence of tokens, or all its violations of conjunctive normal form. -/
def clausesOfTokens (ts : List Token) : Except (List ClauseFault) ClauseSet :=
  (ts.foldl ClauseReader.read ClauseReader.start).finish

/-- The clauses of a text, or all its violations of conjunctive normal form. -/
def clausesOfText (text : List Char) : Except (List ClauseFault) ClauseSet :=
  clausesOfTokens (Token.scan (stripOuterParens text))

end Clausal
