import Mathlib
import Clausal.Family
import Clausal.Proofs.Formula.RoundTrip

/-! # Random formulas

The literals of a random formula are drawn one after the other, each where the one before has left
the stream of words (`IsDrawn`), and three in a row make a clause (`drawnTriples_eq`).  Whatever the
words are, an index stays below the number of names, so each draw gives a literal over them; and the
spelling of nonempty clauses is read back as these clauses.  Hence every stream yields a formula in
conjunctive normal form (`drawn_is_solvable`). -/

namespace Clausal

theorem Clause.width_ofList_le (ls : List Literal) : (ofList ls).width ≤ ls.length :=
  (List.subperm_of_subset (OrderedSet.nodup _) fun _ hl => OrderedSet.mem_ofList.mp hl).length_le

/-- Nonempty lists of literals are the literals of conjuncts that are clauses. -/
theorem Conjunct.exists_clauses {lss : List (List Literal)} (h : ∀ ls ∈ lss, ls ≠ []) :
    ∃ cs : List Conjunct, cs.map spell = lss.map spellClause ∧
      cs.map (fun c => Clause.ofList c.literals) = lss.map Clause.ofList := by
  refine ⟨lss.pmap clause h, ?_, ?_⟩ <;>
  · rw [List.map_pmap]
    exact List.pmap_eq_map ..

/-! ### Draws in a row -/

namespace Random

variable {α : Type} {stream : ℕ → UInt32} {names : List Atom}

/-- The place of the stream at which the draw of the given number begins. -/
def placeOf (draw : ℕ → Draw α) (start number : ℕ) : ℕ :=
  (fun place => (draw place).next)^[number] start

theorem next_drawMany (draw : ℕ → Draw α) (count start : ℕ) :
    (drawMany draw count start).next = placeOf draw start count := by
  induction count generalizing start with
  | zero => rfl
  | succ count ih => exact ih (draw start).next

theorem value_drawMany (draw : ℕ → Draw α) (count start : ℕ) :
    (drawMany draw count start).value =
      (List.range count).map fun k => (draw (placeOf draw start k)).value := by
  induction count generalizing start with
  | zero => rfl
  | succ count ih =>
    rw [List.range_succ_eq_map, List.map_cons, List.map_map]
    exact congrArg _ (ih (draw start).next)

theorem placeOf_add (draw : ℕ → Draw α) (start j k : ℕ) :
    placeOf draw start (j + k) = placeOf draw (placeOf draw start j) k := by
  rw [Nat.add_comm]
  exact Function.iterate_add_apply ..

/-- A row of triples takes three literals at a time. -/
theorem placeOf_drawTriple (h : 0 < names.length) (j : ℕ) :
    placeOf (drawTriple stream names h) 0 j = placeOf (drawLiteral stream names h) 0 (3 * j) := by
  have hnext : (fun place => (drawTriple stream names h place).next) =
      (fun place => (drawLiteral stream names h place).next)^[3] :=
    funext fun place => next_drawMany _ 3 place
  unfold placeOf
  rw [hnext, ← Function.iterate_mul]

/-- The literal with the given number among those that are drawn. -/
def literalAt (stream : ℕ → UInt32) (names : List Atom) (h : 0 < names.length) (number : ℕ) :
    Literal :=
  (drawLiteral stream names h (placeOf (drawLiteral stream names h) 0 number)).value

/-- Literals over the first `n` names are drawn from a stream one after the other, beginning at the
given places: for each an index below `n`, which is that of its name, and then its sign. -/
structure IsDrawn (stream : ℕ → UInt32) (n : ℕ) (literals : ℕ → Literal) (places : ℕ → ℕ) :
    Prop where
  zero : places 0 = 0
  name : ∀ k, (Family.alphabet.take n)[(drawIndex stream n (places k)).value]? =
    some (literals k).atom.name
  sign : ∀ k, (literals k).negated =
    !(drawPositive stream (drawIndex stream n (places k)).next).value
  next : ∀ k, places (k + 1) = (drawPositive stream (drawIndex stream n (places k)).next).next

theorem isDrawn_literalAt (h : 0 < names.length)
    (hnames : names.map (·.name) = Family.alphabet.take names.length) :
    IsDrawn stream names.length (literalAt stream names h)
      (placeOf (drawLiteral stream names h) 0) where
  zero := rfl
  name k := by
    rw [← hnames, List.getElem?_map, List.getElem?_eq_getElem (drawIndex_lt stream h _)]
    rfl
  sign _ := rfl
  next k := Function.iterate_succ_apply' _ k 0

end Random

namespace Family

open Clausal.Random

variable {stream : ℕ → UInt32} {names : List Atom} {n m : ℕ}

/-- The literals of a sequence, three by three. -/
def triples (literals : ℕ → Literal) (count : ℕ) : List (List Literal) :=
  (List.range count).map fun j =>
    [literals (3 * j), literals (3 * j + 1), literals (3 * j + 2)]

theorem exists_of_mem_triples {literals : ℕ → Literal} {ls : List Literal}
    (h : ls ∈ triples literals m) : ∃ j, ls =
      [literals (3 * j), literals (3 * j + 1), literals (3 * j + 2)] := by
  obtain ⟨j, -, rfl⟩ := List.mem_map.mp h
  exact ⟨j, rfl⟩

theorem drawnTriples_eq (h : 0 < names.length) (count : ℕ) :
    drawnTriples stream names count = triples (literalAt stream names h) count := by
  rw [drawnTriples, dif_pos h, value_drawMany]
  refine List.map_congr_left fun j _ => ?_
  rw [placeOf_drawTriple, drawTriple, value_drawMany]
  simp only [literalAt, placeOf_add]
  rfl

/-! ### Names -/

theorem map_name_allAtoms : allAtoms.map (·.name) = alphabet := by decide +kernel

/-- Up to the number of names, the atoms of a family have the first names. -/
theorem atoms_eq_ok (hn : 0 < n) (hn' : n ≤ 62) :
    ∃ names, atoms n = .ok names ∧ names.length = n ∧
      names.map (·.name) = alphabet.take names.length := by
  have halphabet : alphabet.length = 62 := by decide
  have hall : allAtoms.length = 62 := by
    rw [← halphabet, ← map_name_allAtoms, List.length_map]
  have hlen : (allAtoms.take n).length = n := by
    rw [List.length_take, hall, Nat.min_eq_left hn']
  refine ⟨allAtoms.take n, ?_, hlen, ?_⟩
  · rw [atoms, if_neg hn.ne', if_neg (by omega)]
  · rw [hlen, List.map_take, map_name_allAtoms]

/-! ### Formulas -/

/-- A spelled conjunction of nonempty clauses is read back as these clauses. -/
theorem exists_formula {lss : List (List Literal)} (hne : lss ≠ []) (h : ∀ ls ∈ lss, ls ≠ []) :
    ∃ f, Formula.parse (spellConjunction (lss.map spellClause)) = .ok f ∧
      f.isPropositional = true ∧ f.toClauseSet = .ok ⟨lss.map Clause.ofList⟩ := by
  obtain ⟨cs, hspell, hclauses⟩ := Conjunct.exists_clauses h
  have hcs : cs ≠ [] := by
    rintro rfl
    exact hne (List.map_eq_nil_iff.mp hspell.symm)
  have hscan := Conjunct.scan_spellConjunction hcs
  rw [hspell] at hscan
  rw [← hclauses]
  exact Formula.parse_of_scan_eq_conjoin hcs hscan

/-- A clause of three literals has one to three, as some of them may be the same. -/
theorem width_of_mem_triples {literals : ℕ → Literal} {ls : List Literal}
    (h : ls ∈ triples literals m) :
    1 ≤ (Clause.ofList ls).width ∧ (Clause.ofList ls).width ≤ 3 := by
  obtain ⟨j, rfl⟩ := exists_of_mem_triples h
  refine ⟨List.length_pos_of_mem (a := literals (3 * j)) ?_, Clause.width_ofList_le _⟩
  exact OrderedSet.mem_ofList.mpr List.mem_cons_self

theorem name_mem_of_mem_triples {literals : ℕ → Literal} {places : ℕ → ℕ} {ls : List Literal}
    (hdrawn : IsDrawn stream n literals places) (h : ls ∈ triples literals m) :
    ∀ l ∈ ls, l.atom.name ∈ alphabet.take n := by
  have hname : ∀ k, (literals k).atom.name ∈ alphabet.take n := fun k =>
    List.mem_of_getElem? (hdrawn.name k)
  obtain ⟨j, rfl⟩ := exists_of_mem_triples h
  simp [hname]

/-- The random formula of any stream of words is accepted, is propositional and in conjunctive
normal form.  Its clauses are those of the literals that are drawn, three by three, and have one to
three of them, over the first names. -/
theorem drawn_is_solvable (stream : ℕ → UInt32) {n m : ℕ} (hn : 0 < n) (hn' : n ≤ 62)
    (hm : 0 < m) :
    (∀ place, (drawIndex stream n place).value < n) ∧
    ∃ text f s literals places, drawn stream n m = .ok text ∧ Formula.parse text = .ok f ∧
      f.isPropositional = true ∧ f.isConjunctive = true ∧ f.toClauseSet = .ok s ∧
      IsDrawn stream n literals places ∧ s.clauses = (triples literals m).map Clause.ofList ∧
      s.size = m ∧ (∀ c ∈ s.clauses, 1 ≤ c.width ∧ c.width ≤ 3) ∧
      ∀ a ∈ s.atoms, a.name ∈ alphabet.take n := by
  obtain ⟨names, hatoms, rfl, hnames⟩ := atoms_eq_ok hn hn'
  have hdrawn : IsDrawn stream names.length (literalAt stream names hn)
      (placeOf (drawLiteral stream names hn) 0) :=
    isDrawn_literalAt hn hnames
  have htext : drawn stream names.length m =
      .ok (spellConjunction ((triples (literalAt stream names hn) m).map spellClause)) := by
    rw [drawn, if_neg hm.ne', hatoms, ← drawnTriples_eq]
    rfl
  generalize literalAt stream names hn = literals at hdrawn htext
  have hne : triples literals m ≠ [] := by simpa [triples] using hm.ne'
  have hlits : ∀ ls ∈ triples literals m, ls ≠ [] := by simp [triples]
  obtain ⟨f, hparse, hpropositional, hclauses⟩ := exists_formula hne hlits
  have hconjunctive : f.isConjunctive = true := by
    rw [Formula.isConjunctive, hclauses]
    rfl
  refine ⟨drawIndex_lt stream hn, _, f, _, literals, _, htext, hparse, hpropositional, hconjunctive,
    hclauses, hdrawn, rfl, ?_, ?_, ?_⟩
  · simp [ClauseSet.size, triples]
  · exact List.forall_mem_map.mpr fun ls hls => width_of_mem_triples hls
  · intro a ha
    obtain ⟨l, hl, rfl⟩ := ClauseSet.mem_atoms.mp ha
    obtain ⟨c, hc, hlc⟩ := ClauseSet.mem_literals.mp hl
    obtain ⟨ls, hls, rfl⟩ := List.mem_map.mp hc
    exact name_mem_of_mem_triples hdrawn hls l (Clause.mem_ofList.mp hlc)

/-- With these words the first index is the high half of the first word times 3, corrected. -/
theorem drawn_is_solvable_of_corrected_index :
    let stream : ℕ → UInt32 := fun place => if place = 0 then 1431655765 else 0xFFFFFFFF
    let text := "(B or C or C)".toList
    0 < 3 ∧ 3 ≤ 62 ∧ 0 < 1 ∧ (drawIndex stream 3 0).value = 1431655765 * 3 / 2 ^ 32 + 1 ∧
      drawn stream 3 1 = .ok text ∧ ∃ f s, Formula.parse text = .ok f ∧ f.isPropositional = true ∧
        f.isConjunctive = true ∧ f.toClauseSet = .ok s ∧ s.size = 1 ∧
        (∀ c ∈ s.clauses, 1 ≤ c.width ∧ c.width ≤ 3) ∧ ∀ a ∈ s.atoms, a.name ∈ alphabet.take 3 := by
  intro stream text
  have hdrawn : drawn stream 3 1 = .ok text := by decide +kernel
  have hindex : (drawIndex stream 3 0).value = 1431655765 * 3 / 2 ^ 32 + 1 := by decide +kernel
  obtain ⟨-, _, f, s, _, _, htext, hparse, hpropositional, hconjunctive, hclauses, -, -, hsize,
    hwidth, hnames⟩ :=
    drawn_is_solvable stream (n := 3) (m := 1) (by decide) (by decide) (by decide)
  rw [hdrawn] at htext
  cases htext
  exact ⟨by decide, by decide, by decide, hindex, hdrawn, f, s, hparse, hpropositional,
    hconjunctive, hclauses, hsize, hwidth, hnames⟩

end Family
end Clausal
