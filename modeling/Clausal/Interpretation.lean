import Clausal.Bits
import Clausal.Capacity
import Clausal.ClauseSet

/-! # Interpretations

An interpretation gives truth values to some atoms and remembers the order in which the atoms
first received one.  An atom without a value makes neither of its literals true.

Over an ordered set of at most 31 atoms an interpretation is encoded by a *vector*: bit `i` is
the value of the atom at place `i`. -/

namespace Clausal

/-- Truth values of finitely many atoms, each listed once. -/
@[ext]
structure Interpretation where
  entries : List (Atom × Bool)
  nodup : (entries.map Prod.fst).Nodup
deriving DecidableEq

namespace Interpretation

/-- The interpretation that gives no atom a value. -/
def empty : Interpretation := ⟨[], List.nodup_nil⟩

/-- The atoms that have a value, in order. -/
def atoms (i : Interpretation) : OrderedSet Atom := ⟨i.entries.map Prod.fst, i.nodup⟩

/-- The value of an atom. -/
def get? (i : Interpretation) (a : Atom) : Option Bool := i.entries.lookup a

/-- The number of atoms that have a value. -/
def size (i : Interpretation) : Nat := i.entries.length

/-- Entries after `a` received a value: in place if it had one, at the end otherwise. -/
def put (a : Atom) (value : Bool) : List (Atom × Bool) → List (Atom × Bool)
  | [] => [(a, value)]
  | (b, old) :: rest => if b = a then (b, value) :: rest else (b, old) :: put a value rest

theorem mem_keys_put {a b : Atom} {value : Bool} {entries : List (Atom × Bool)} :
    b ∈ (put a value entries).map Prod.fst ↔ b = a ∨ b ∈ entries.map Prod.fst := by
  induction entries with
  | nil => simp [put]
  | cons e rest ih =>
    obtain ⟨c, old⟩ := e
    by_cases h : c = a
    · subst h
      simp [put]
    · simp only [put, h, if_false, List.map_cons, List.mem_cons, ih]
      grind

theorem nodup_keys_put {a : Atom} {value : Bool} {entries : List (Atom × Bool)}
    (h : (entries.map Prod.fst).Nodup) : ((put a value entries).map Prod.fst).Nodup := by
  induction entries with
  | nil => simp [put]
  | cons e rest ih =>
    obtain ⟨c, old⟩ := e
    rw [List.map_cons, List.nodup_cons] at h
    by_cases hc : c = a
    · subst hc
      simpa only [put, if_true, List.map_cons, List.nodup_cons] using h
    · simp only [put, hc, if_false, List.map_cons, List.nodup_cons]
      refine ⟨fun hm => ?_, ih h.2⟩
      rcases mem_keys_put.mp hm with rfl | hm
      · exact hc rfl
      · exact h.1 hm

/-- The interpretation after `a` received a value. -/
def set (i : Interpretation) (a : Atom) (value : Bool) : Interpretation :=
  ⟨put a value i.entries, nodup_keys_put i.nodup⟩

/-- The interpretation changed so that `l` holds. -/
def assume (i : Interpretation) (l : Literal) : Interpretation := i.set l.atom l.asserted

/-- The interpretation changed so that each literal in turn holds. -/
def assumeAll (i : Interpretation) (ls : List Literal) : Interpretation := ls.foldl assume i

/-- The interpretation that lists exactly the given atoms, with their values in `i` and false
where `i` has none. -/
def totalOn (i : Interpretation) (atoms : OrderedSet Atom) : Interpretation :=
  ⟨atoms.toList.map (fun a => (a, (i.get? a).getD false)), by
    simpa [Function.comp_def] using atoms.nodup⟩

/-- Whether a literal is true; it is not if its atom has no value. -/
def makesTrue (i : Interpretation) (l : Literal) : Bool := (i.get? l.atom).any l.eval

/-- Whether some literal of the clause is true. -/
def satisfiesClause (i : Interpretation) (c : Clause) : Bool := c.literals.toList.any i.makesTrue

/-- Whether every clause has a true literal. -/
def satisfies (i : Interpretation) (s : ClauseSet) : Bool := s.clauses.all i.satisfiesClause

/-! ### Vectors -/

/-- The interpretation of a vector: bit `k` is the value of the atom at place `k`. -/
def ofVector (atoms : OrderedSet Atom) (vector : Nat) : Interpretation :=
  ⟨atoms.toList.zipIdx.map (fun (a, k) => (a, vector.testBit k)), by
    simpa [Function.comp_def, List.zipIdx_map_fst] using atoms.nodup⟩

/-- The vector over the given atoms whose set bits are the true ones. -/
def vectorOver (i : Interpretation) (atoms : OrderedSet Atom) : Nat :=
  Bits.toNat (atoms.toList.map (fun a => i.get? a == some true))

/-- The vector over the given atoms, if they fit into one word. -/
def encode (i : Interpretation) (atoms : OrderedSet Atom) : Except CapacityExceeded Nat :=
  withinCapacity atoms.size (i.vectorOver atoms)

/-! ### Written form -/

/-- The written form of one value. -/
def renderEntry (entry : Atom × Bool) : String :=
  String.ofList [entry.1.name] ++ "=" ++ (if entry.2 then "true" else "false")

/-- The written form, such as `{A=true, B=false}`. -/
def render (i : Interpretation) : String :=
  "\x7b" ++ ", ".intercalate (i.entries.map renderEntry) ++ "\x7d"

/-! ### Reading after writing -/

theorem lookup_cons_self (a : Atom) (value : Bool) (entries : List (Atom × Bool)) :
    ((a, value) :: entries).lookup a = some value := by
  simp

theorem lookup_cons_of_ne {a b : Atom} (h : b ≠ a) (value : Bool)
    (entries : List (Atom × Bool)) : ((a, value) :: entries).lookup b = entries.lookup b := by
  rw [List.lookup_cons, beq_eq_false_iff_ne.mpr h]

theorem lookup_put {a b : Atom} {value : Bool} {entries : List (Atom × Bool)} :
    (put a value entries).lookup b = if b = a then some value else entries.lookup b := by
  induction entries with
  | nil =>
    by_cases h : b = a
    · rw [put, h, lookup_cons_self, if_pos rfl]
    · rw [put, lookup_cons_of_ne h, if_neg h]
  | cons e rest ih =>
    obtain ⟨c, old⟩ := e
    by_cases hc : c = a
    · subst hc
      rw [put, if_pos rfl]
      by_cases hb : b = c
      · rw [hb, lookup_cons_self, if_pos rfl]
      · rw [lookup_cons_of_ne hb, lookup_cons_of_ne hb, if_neg hb]
    · rw [put, if_neg hc]
      by_cases hb : b = c
      · rw [hb, lookup_cons_self, lookup_cons_self, if_neg hc]
      · rw [lookup_cons_of_ne hb, lookup_cons_of_ne hb, ih]

theorem makesTrue_iff {i : Interpretation} {l : Literal} :
    i.makesTrue l = true ↔ i.get? l.atom = some l.asserted := by
  simp [makesTrue, Option.any_eq_true, Literal.eval_eq_true_iff]

/-- Setting an atom changes its value and no other. -/
theorem get?_set (i : Interpretation) (a b : Atom) (value : Bool) :
    (i.set a value).get? b = if b = a then some value else i.get? b :=
  lookup_put

theorem get?_assume (i : Interpretation) (l : Literal) (b : Atom) :
    (i.assume l).get? b = if b = l.atom then some l.asserted else i.get? b :=
  get?_set i l.atom b l.asserted

end Interpretation
end Clausal
