import Clausal.ClauseSet
import Clausal.Text.Blank
import Clausal.Text.Quoted

/-! # Clause sets in braces

A clause is written as its literals between braces, separated by commas, and a clause set as its
clauses separated by commas: `{A,-B},{C}`.  Reading ignores blanks everywhere and empty places
between the commas of a clause; it is strict about commas between clauses. -/

namespace Clausal

/-- The written form of a clause. -/
def Clause.render (c : Clause) : List Char :=
  '{' :: ([','].intercalate (c.literals.toList.map Literal.render) ++ ['}'])

/-- The written form of a clause set. -/
def ClauseSet.render (s : ClauseSet) : List Char :=
  [','].intercalate (s.clauses.map Clause.render)

/-- Why a text is no clause set in braces. -/
inductive BraceFault where
  | missingOpening (rest : List Char)
  | missingClosing
  | badLiteral (text : List Char)
  | trailingComma
  | missingComma (rest : List Char)
deriving DecidableEq

/-- The wording of a fault. -/
def BraceFault.message : BraceFault → String
  | missingOpening rest => "expected '\x7b' at " ++ Text.quoted rest
  | missingClosing => "missing '\x7d'"
  | badLiteral text => "invalid literal " ++ Text.quoted text
  | trailingComma => "trailing ','"
  | missingComma rest => "expected ',' at " ++ Text.quoted rest

/-- Reads a literal. -/
def Literal.parse (text : List Char) : Except BraceFault Literal :=
  match Literal.parse? text with
  | some l => .ok l
  | none => .error (.badLiteral text)

/-- Reads the text between the braces of a clause. -/
def Clause.parseBody (body : List Char) : Except BraceFault Clause :=
  ((Text.runs (· == ',') body).mapM Literal.parse).map Clause.ofList

/-- Reads the clauses of a text without blanks. -/
def parseClauses : List Char → Except BraceFault (List Clause)
  | [] => .ok []
  | '{' :: text =>
    match _hclose : text.dropWhile (· != '}') with
    | [] => .error .missingClosing
    | _ :: rest => do
      let c ← Clause.parseBody (text.takeWhile (· != '}'))
      match _hrest : rest with
      | [] => return [c]
      | [','] => throw .trailingComma
      | ',' :: d :: more => return c :: (← parseClauses (d :: more))
      | _ => throw (.missingComma rest)
  | text => .error (.missingOpening text)
termination_by text => text.length
decreasing_by
  have shorter := (List.dropWhile_sublist (l := text) (· != '}')).length_le
  simp only [_hclose, _hrest, List.length_cons] at shorter ⊢
  omega

/-- Reads a clause set. -/
def ClauseSet.parse (text : List Char) : Except BraceFault ClauseSet :=
  (parseClauses (Text.withoutBlanks text)).map ClauseSet.mk

end Clausal
