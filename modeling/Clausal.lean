import Clausal.Algorithm
import Clausal.Atom
import Clausal.Bits
import Clausal.Capacity
import Clausal.Clause
import Clausal.ClauseSet
import Clausal.ClauseSet.BraceForm
import Clausal.Command
import Clausal.Command.Arguments
import Clausal.Dpll
import Clausal.Dpll.State
import Clausal.Enumeration
import Clausal.Enumeration.Countdown
import Clausal.Enumeration.Space
import Clausal.Failure
import Clausal.Family
import Clausal.Formula
import Clausal.Formula.ClauseReader
import Clausal.Formula.Connective
import Clausal.Formula.Fragment
import Clausal.Formula.OuterParens
import Clausal.Formula.Spelling
import Clausal.Formula.Token
import Clausal.Formula.WellFormed
import Clausal.Interpretation
import Clausal.Literal
import Clausal.Main
import Clausal.OrderedSet
import Clausal.Proofs.Algorithm
import Clausal.Proofs.ClauseSet.BraceForm
import Clausal.Proofs.ClauseSet.Grammar
import Clausal.Proofs.Command
import Clausal.Proofs.Dpll.Assumptions
import Clausal.Proofs.Dpll.Correctness
import Clausal.Proofs.Enumeration.Greatest
import Clausal.Proofs.Enumeration.Refinement
import Clausal.Proofs.Enumeration.Search
import Clausal.Proofs.Enumeration.Template
import Clausal.Proofs.Formula.Accepted
import Clausal.Proofs.Formula.Conjunct
import Clausal.Proofs.Formula.Conjunctive
import Clausal.Proofs.Formula.Doomed
import Clausal.Proofs.Formula.Extraction
import Clausal.Proofs.Formula.Infix
import Clausal.Proofs.Formula.Meaning
import Clausal.Proofs.Formula.Nesting
import Clausal.Proofs.Formula.OuterParens
import Clausal.Proofs.Formula.Phase
import Clausal.Proofs.Formula.RoundTrip
import Clausal.Proofs.Formula.Spelling
import Clausal.Proofs.Formula.Symbol
import Clausal.Proofs.Formula.Token
import Clausal.Proofs.Formula.WellFormed
import Clausal.Proofs.Formula.Words
import Clausal.Proofs.Report
import Clausal.Proofs.Restriction
import Clausal.Proofs.Satisfaction
import Clausal.Proofs.Session
import Clausal.Proofs.Text.Blank
import Clausal.Proofs.Vector
import Clausal.Random.Draw
import Clausal.Random.KeyStream
import Clausal.Report
import Clausal.Session
import Clausal.Text.Alphanumeric
import Clausal.Text.Blank
import Clausal.Text.Quoted
import Clausal.Proofs.Dpll.Counters
import Clausal.Proofs.Formula.Joined
import Clausal.Proofs.Dpll.Path
import Clausal.Proofs.Dpll.Outcome
import Clausal.Proofs.Dpll.Bounds
import Clausal.Proofs.UnitClosure
import Clausal.Proofs.Dpll.Propagation
import Clausal.Proofs.Repeats
import Clausal.Proofs.Dpll.Repeats
import Clausal.Proofs.Formula.Stages
import Clausal.Proofs.Formula.Violations
import Clausal.Proofs.Substitution
import Clausal.Proofs.Dpll.PureLiterals
import Clausal.Proofs.ClauseSet.Edits
import Clausal.Proofs.Dpll.Calls
import Clausal.Proofs.Enumeration.Layout
import Clausal.Proofs.Family
import Clausal.ClauseSet.Marked
import Clausal.Proofs.ClauseSet.Marked
import Clausal.Proofs.Text.Lines
import Clausal.Proofs.Formula.Messages
import Clausal.Proofs.MachineWord
