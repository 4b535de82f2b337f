import Clausal.Algorithm

/-! # Reports

A report has one block for each algorithm it was asked for, in that order.  A block gives the
verdict and the work, or says that the clause set exceeds the capacity of the algorithm; the
other algorithms still run. -/

namespace Clausal.Report

/-- The part of a report on one algorithm. -/
inductive Block where
  | overCapacity (algorithm : Algorithm) (e : CapacityExceeded)
  | verdict (algorithm : Algorithm) (answer : Answer) (work : Work)
deriving DecidableEq

namespace Block

/-- The block of an algorithm on a clause set. -/
def of (s : ClauseSet) (a : Algorithm) : Block :=
  match a.run s with
  | .ok (answer, work) => verdict a answer work
  | .error e => overCapacity a e

/-- The line of a verdict, after the name of the algorithm. -/
def renderAnswer (answer : Answer) : String :=
  match answer.model with
  | some i =>
    "SAT vector=" ++ (answer.vector.map toString).getD "-" ++ " interpretation=" ++ i.render
  | none => "UNSAT result=-1"

/-- The line of the work. -/
def renderWork (work : Work) : String :=
  "  candidates=" ++ toString work.candidates ++
    " decisions=" ++ toString work.search.decisions ++
    " propagations=" ++ toString work.search.propagations ++
    " pure=" ++ toString work.search.pureLiterals ++
    " conflicts=" ++ toString work.search.conflicts

/-- The lines of a block. -/
def lines : Block → List String
  | overCapacity a e => [a.title ++ ": capacity exceeded (" ++ e.message ++ ")"]
  | verdict a answer work => [a.title ++ ": " ++ renderAnswer answer, renderWork work]

end Block

/-- The blocks of a report. -/
def blocks (s : ClauseSet) (algorithms : List Algorithm) : List Block :=
  algorithms.map (Block.of s)

/-- The lines of a report. -/
def lines (s : ClauseSet) (algorithms : List Algorithm) : List String :=
  (blocks s algorithms).flatMap Block.lines

end Clausal.Report
