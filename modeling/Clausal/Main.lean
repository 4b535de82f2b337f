import Clausal.Command

/-! # The program -/

/-- How to call the program. -/
def Clausal.usage : String :=
  "usage: check FORMULA | solve FORMULA [--algorithm NAMES] [--show-clauses] | gen --atoms N"

/-- Prints the outcome of a command line and ends with its exit code. -/
def main (args : List String) : IO UInt32 := do
  let outcome := (Clausal.Command.read? (args.map String.toList)).map Clausal.Command.run
  match outcome with
  | none => IO.eprintln Clausal.usage
  | some o =>
    IO.print o.output
    o.failure.forM IO.eprintln
  return UInt32.ofNat (Clausal.Command.exitCode outcome)
