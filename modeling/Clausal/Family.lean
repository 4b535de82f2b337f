import Clausal.Formula.Spelling
import Clausal.Random.Draw
import Clausal.Random.KeyStream

/-! # Families of formulas

Formulas of any size up to the number of atom names, for trying out the algorithms: one that
only the last vector satisfies, one that is refuted only after all vectors, and random ones. -/

namespace Clausal

/-- Why a formula of a family does not exist. -/
inductive FamilyFault where
  | noAtoms
  | tooManyAtoms (n : Nat)
  | noClauses
deriving DecidableEq

namespace Family

/-- The characters that name atoms, in the order in which they are used. -/
def alphabet : List Char :=
  "ABCDEFGHIJKLMNOPQRSTUVWXYZabcdefghijklmnopqrstuvwxyz0123456789".toList

/-- The atoms with these names. -/
def allAtoms : List Atom := alphabet.filterMap Atom.ofChar?

/-- The first `n` atoms. -/
def atoms (n : Nat) : Except FamilyFault (List Atom) :=
  if n = 0 then .error .noAtoms
  else if alphabet.length < n then .error (.tooManyAtoms n)
  else .ok (allAtoms.take n)

/-- Every atom is denied, so that only the vector zero is a model. -/
def allDenied (n : Nat) : Except FamilyFault (List Char) :=
  (atoms n).map fun names =>
    spellConjunction (names.map fun a => spellClause [Literal.negative a])

/-- The clauses in which each of some atoms implies the next. -/
def implications : List Atom → List (List Literal)
  | a :: b :: rest => [Literal.negative a, Literal.positive b] :: implications (b :: rest)
  | _ => []

/-- The first atom holds, each implies the next, and the last is denied. -/
def refutedChain (n : Nat) : Except FamilyFault (List Char) :=
  (atoms n).map fun names =>
    spellConjunction <| List.map spellClause <|
      (names.head?.map fun a => [Literal.positive a]).toList ++ implications names ++
        (names.getLast?.map fun a => [Literal.negative a]).toList

/-- Clauses of three literals that are drawn from a stream of words. -/
def drawnTriples (stream : Nat → UInt32) (names : List Atom) (count : Nat) :
    List (List Literal) :=
  if h : 0 < names.length then
    (Random.drawMany (Random.drawTriple stream names h) count 0).value
  else []

/-- A formula of `count` clauses drawn from a stream of words. -/
def drawn (stream : Nat → UInt32) (n count : Nat) : Except FamilyFault (List Char) :=
  if count = 0 then .error .noClauses
  else (atoms n).map fun names =>
    spellConjunction ((drawnTriples stream names count).map spellClause)

/-- The random formula of a seed. -/
def random (n count : Nat) (seed : UInt64) : Except FamilyFault (List Char) :=
  drawn (Random.keyStream seed) n count

end Family

/-- The wording of a fault. -/
def FamilyFault.message : FamilyFault → String
  | noAtoms => "at least one atom is required"
  | tooManyAtoms n =>
    toString n ++ " atoms requested, only " ++ toString Family.alphabet.length ++
      " names available"
  | noClauses => "at least one clause is required"

end Clausal
