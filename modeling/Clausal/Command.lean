import Clausal.Command.Arguments
import Clausal.Family
import Clausal.Formula
import Clausal.Report

/-! # Commands

The program checks a formula, solves it, or generates one of a family and may solve that.  A
command ends with the lines it printed and, if it failed, the text of the failure. -/

namespace Clausal

/-- What to generate. -/
structure Generation where
  atoms : Nat
  random : Bool
  unsat : Bool
  /-- The number of random clauses; zero means four for each atom. -/
  clauses : Nat
  seed : Nat
  /-- The choice of algorithms, if the formula is to be solved. -/
  solve : Option (List Char)
deriving DecidableEq

/-- What the program is asked to do. -/
inductive Command where
  | check (formula : List Char)
  | solve (formula algorithms : List Char) (showClauses : Bool)
  | generate (options : Generation)
deriving DecidableEq

namespace Command

/-! ### Reading a command -/

/-- The choice of algorithms if none is given. -/
def defaultChoice : List Char := "all".toList

/-- Reads the arguments of `check`. -/
def readCheck (texts : List (List Char)) : Option Command :=
  match Arguments.read ⟨["verbose".toList], []⟩ .none texts with
  | some ⟨_, _, [formula]⟩ => some (check formula)
  | _ => none

/-- Reads the arguments of `solve`. -/
def readSolve (texts : List (List Char)) : Option Command :=
  match Arguments.read ⟨["verbose".toList, "show-clauses".toList], ["algorithm".toList]⟩
      .none texts with
  | some a =>
    match a.operands with
    | [formula] =>
      some (solve formula ((a.value? "algorithm").getD defaultChoice) (a.has "show-clauses"))
    | _ => none
  | none => none

/-- The number given by an option, or a default. -/
def number (a : Arguments) (option : String) (default : Nat) : Option Nat :=
  match a.value? option with
  | some text => readNumber text
  | none => some default

/-- Reads the arguments of `gen`. -/
def readGenerate (texts : List (List Char)) : Option Command := do
  let a ← Arguments.read
    ⟨["verbose".toList, "random".toList, "unsat".toList, "solve".toList],
      ["atoms".toList, "clauses".toList, "seed".toList, "algorithm".toList]⟩ .none texts
  guard (a.operands = [])
  let atoms ← readNumber (← a.value? "atoms")
  let clauses ← number a "clauses" 0
  let seed ← number a "seed" 1
  let choice := (a.value? "algorithm").getD defaultChoice
  return generate
    ⟨atoms, a.has "random", a.has "unsat", clauses, seed,
      if a.has "solve" then some choice else none⟩

/-- Reads the name of a command and its arguments. -/
def readNamed : List (List Char) → Option Command
  | [] => none
  | name :: texts =>
    if name = "check".toList then readCheck texts
    else if name = "solve".toList then readSolve texts
    else if name = "gen".toList then readGenerate texts
    else none

/-- Reads a command line.  The flag `--verbose` may stand in front; it changes nothing that is
printed here. -/
def read? (texts : List (List Char)) : Option Command :=
  match texts with
  | [] => none
  | text :: rest => if text = "--verbose".toList then readNamed rest else readNamed texts

/-! ### Carrying out a command -/

/-- The lines that were printed, and the text of a failure after them. -/
structure Outcome where
  lines : List String
  failure : Option String
deriving DecidableEq

namespace Outcome

/-- The outcome of a command that did not fail. -/
def printed (lines : List String) : Outcome := ⟨lines, none⟩

/-- The outcome of a command that fails at once. -/
def failed (message : String) : Outcome := ⟨[], some ("Error: " ++ message)⟩

/-- The outcome with lines printed in front. -/
def after (lines : List String) (o : Outcome) : Outcome := ⟨lines ++ o.lines, o.failure⟩

/-- What was printed. -/
def output (o : Outcome) : String := String.join (o.lines.map (· ++ "\n"))

end Outcome

/-- The algorithms of a choice: all, or those listed between commas. -/
def algorithms (choice : List Char) : Except String (List Algorithm) :=
  if choice = "all".toList then .ok Algorithm.all
  else (choice.splitOn ',').mapM fun word => Algorithm.ofWord (Text.trim word)

/-- The lines about the clauses of a propositional text. -/
def clauseLines (text : List Char) : List String :=
  match clausesOfText text with
  | .ok s => ["cnf: yes", "clauses: " ++ String.ofList s.render]
  | .error faults => "cnf: no" :: faults.map fun f => "  " ++ f.message

/-- Checks a text step by step, as far as it is accepted. -/
def runCheck (text : List Char) : Outcome :=
  match Formula.faults text with
  | .error e => .failed e.message
  | .ok [] =>
    .printed <| "syntax: valid" ::
      if isPropositional text then "propositional: yes" :: clauseLines text
      else ["propositional: no"]
  | .ok faults => .printed ("syntax: invalid" :: faults.map fun f => "  " ++ f.message)

/-- Solves a formula with each of the algorithms, of which there must be one. -/
def runSolve (text : List Char) (algorithms : List Algorithm) (showClauses : Bool) : Outcome :=
  match Formula.parse text with
  | .error e =>
    .failed ("rejected formula " ++ Text.quoted text ++ "\n\nCaused by:\n    " ++ e.message)
  | .ok f =>
    match f.toClauseSet with
    | .error e => .failed e.message
    | .ok s =>
      .after (if showClauses then ["clauses: " ++ String.ofList s.render] else []) <|
        if algorithms = [] then .failed "no algorithm selected"
        else .printed (Report.lines s algorithms)

/-- Solves a formula with a choice of algorithms, which is read first. -/
def runChoice (text choice : List Char) (showClauses : Bool) : Outcome :=
  match algorithms choice with
  | .error message => .failed message
  | .ok list => runSolve text list showClauses

/-- The formula to generate. -/
def generated (g : Generation) : Except FamilyFault (List Char) :=
  if g.random then
    Family.random g.atoms (if g.clauses = 0 then g.atoms * 4 else g.clauses)
      (UInt64.ofNat g.seed)
  else if g.unsat then Family.refutedChain g.atoms
  else Family.allDenied g.atoms

/-- Prints a formula of a family, and solves it if asked to. -/
def runGenerate (g : Generation) : Outcome :=
  match generated g with
  | .error fault => .failed fault.message
  | .ok text =>
    .after [String.ofList text] <|
      match g.solve with
      | none => .printed []
      | some choice => runChoice text choice false

/-- Carries out a command. -/
def run : Command → Outcome
  | check text => runCheck text
  | solve text choice showClauses => runChoice text choice showClauses
  | generate g => runGenerate g

/-- The exit code of a command line: 2 if it cannot be read, 1 if the command fails. -/
def exitCode : Option Outcome → Nat
  | none => 2
  | some o => if o.failure.isSome then 1 else 0

end Command
end Clausal
