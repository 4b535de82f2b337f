import Clausal.Algorithm

/-! # Sessions

A session decides one clause set after the other with the same algorithm.  It remembers the
last answer only, and adds up the work of all calls. -/

namespace Clausal

/-- A solver in use. -/
structure Session where
  algorithm : Algorithm
  /-- The answer of the last call, without a model if the call failed. -/
  answer : Answer
  calls : Nat
  work : Work
deriving DecidableEq

namespace Session

/-- A session without any call. -/
def new (a : Algorithm) : Session := ⟨a, Answer.noModel, 0, Work.zero⟩

/-- The session after a call, and whether the clause set is satisfiable. -/
def solve (session : Session) (s : ClauseSet) : Session × Except CapacityExceeded Bool :=
  match session.algorithm.run s with
  | .ok (answer, work) =>
    (⟨session.algorithm, answer, session.calls + 1, session.work + work⟩, .ok answer.isSat)
  | .error e => (⟨session.algorithm, Answer.noModel, session.calls + 1, session.work⟩, .error e)

end Session
end Clausal
