import Clausal.Dpll
import Clausal.Enumeration
import Clausal.Text.Quoted

/-! # Algorithms

Three algorithms decide a clause set: enumeration of all vectors, enumeration of the vectors
that agree with the unit clauses, and the search with propagation.  An answer carries a model
over the atoms of the set and its vector; the work says what the answer took.  The enumerating
algorithms fail on more atoms than a vector has bits. -/

namespace Clausal

/-- A way to decide clause sets. -/
inductive Algorithm where
  | enumeration
  | forcedEnumeration
  | dpll
deriving DecidableEq

/-- A model and its vector, or nothing.  A model of too many atoms has no vector. -/
structure Answer where
  model : Option Interpretation
  vector : Option Nat
deriving DecidableEq

namespace Answer

/-- The answer without a model. -/
def noModel : Answer := ⟨none, none⟩

/-- Whether a model was found. -/
def isSat (a : Answer) : Bool := a.model.isSome

/-- The value that the model gives to an atom. -/
def value? (a : Answer) (atom : Atom) : Option Bool := a.model.bind (·.get? atom)

end Answer

/-- What a decision took: vectors tried, and the steps of a search with propagation. -/
structure Work where
  candidates : Nat
  search : Dpll.Stats
deriving DecidableEq

namespace Work

/-- No work. -/
def zero : Work := ⟨0, Dpll.Stats.zero⟩

instance : Add Work := ⟨fun a b => ⟨a.candidates + b.candidates, a.search + b.search⟩⟩

end Work

/-- The answer and the work of an enumeration. -/
def Enumeration.report (e : Enumeration) (space : Space) : Answer × Work :=
  (⟨e.interpretation space, e.vector⟩, ⟨e.visited, Dpll.Stats.zero⟩)

/-- The answer and the work of a search with propagation. -/
def Dpll.Result.report (r : Dpll.Result) (s : ClauseSet) : Answer × Work :=
  (⟨r.model, r.model.bind fun i => (i.encode s.atoms).toOption⟩, ⟨0, r.stats⟩)

namespace Algorithm

/-- All algorithms. -/
def all : List Algorithm := [enumeration, forcedEnumeration, dpll]

/-- The word that chooses an algorithm. -/
def word : Algorithm → List Char
  | enumeration => "brute".toList
  | forcedEnumeration => "unit".toList
  | dpll => "dpll".toList

/-- The name under which an algorithm reports. -/
def title : Algorithm → String
  | enumeration => "brute-force"
  | forcedEnumeration => "brute-force-unit"
  | dpll => "dpll"

/-- The algorithm chosen by a word, or a message if there is none. -/
def ofWord (w : List Char) : Except String Algorithm :=
  match all.find? (·.word = w) with
  | some a => .ok a
  | none => .error ("unknown algorithm " ++ Text.quoted w ++ ", expected brute|unit|dpll")

/-- Decides a clause set. -/
def run (a : Algorithm) (s : ClauseSet) : Except CapacityExceeded (Answer × Work) :=
  let space := Space.ofClauseSet s
  match a with
  | enumeration => (Enumeration.search s space).map (·.report space)
  | forcedEnumeration => (Enumeration.searchForced s space).map (·.report space)
  | dpll => .ok ((Dpll.solve s).report s)

end Algorithm
end Clausal
