import Mathlib
import Clausal.Proofs.ClauseSet.Grammar
import Clausal.Proofs.ClauseSet.Marked
import Clausal.Proofs.Formula.Conjunct

/-! # Edits of a clause set

A clause set changes in two ways: a clause is added at its end, or the set is restricted by a
literal.  Under a sequence of such edits every clause fares on its own: an addition leaves it alone,
and a restriction satisfies it or takes its literals over one atom away (`Clause.toList_after`).
What is left of the first clauses, in their order, is followed by what is left of the added ones
(`ClauseSet.clauses_editAll`).

So no edit undoes the form of a set.  An empty clause stays for ever
(`ClauseSet.hasEmptyClause_editAll`), and the atoms of the set are numbered by their first
occurrences (`ClauseSet.listsAtoms_atoms`).  A set of stored clauses starts out proper, whichever
way its text is read, and one edit after the other it goes on representing the set of clauses
(`MarkedClauseSet.Represents.editAll`): a clause that has lost its last literal is stored as the
marker and never as an empty set of literals. -/

namespace Clausal

/-- A change of a clause set. -/
inductive Edit
  | add (literals : List Literal)
  | restrict (l : Literal)
deriving DecidableEq

/-- The atoms of the literals by which the edits restrict. -/
def Edit.settled : List Edit → List Atom
  | [] => []
  | add _ :: edits => settled edits
  | restrict l :: edits => l.atom :: settled edits

/-! ### Clauses under edits -/

namespace Clause

variable {c d : Clause} {l : Literal} {edits : List Edit}

/-- What is left of a clause after the edits; nothing, if one of them satisfies it. -/
def after (c : Clause) : List Edit → Option Clause
  | [] => some c
  | .add _ :: edits => c.after edits
  | .restrict l :: edits => (c.restrict l).bind (·.after edits)

/-- What is left of a clause are its literals over the atoms that no restriction has settled. -/
theorem toList_after (h : c.after edits = some d) :
    d.literals.toList = c.literals.toList.filter (·.atom ∉ Edit.settled edits) := by
  induction edits generalizing c with
  | nil =>
    cases h
    simp [Edit.settled]
  | cons e edits ih =>
    cases e with
    | add _ => exact ih h
    | restrict l =>
      obtain ⟨c', hc', hd⟩ := Option.bind_eq_some_iff.mp h
      rw [ih hd, toList_of_restrict hc', List.filter_filter]
      refine List.filter_congr fun m _ => ?_
      simp [Edit.settled, Bool.and_comm]

/-- A clause runs empty once all its atoms are settled, and not before. -/
theorem isEmpty_after_iff (h : c.after edits = some d) :
    d.isEmpty = true ↔ ∀ l ∈ c, l.atom ∈ Edit.settled edits := by
  rw [isEmpty, OrderedSet.isEmpty, List.isEmpty_iff, toList_after h, List.filter_eq_nil_iff]
  simp [mem_def]

end Clause

/-- What is left in the end of the clauses that the edits add, in the order of the additions. -/
def Edit.additions : List Edit → List Clause
  | [] => []
  | add literals :: edits => ((Clause.ofList literals).after edits).toList ++ additions edits
  | restrict _ :: edits => additions edits

/-! ### Clause sets under edits -/

/-- The elements of a list are numbered by their first occurrences. -/
theorem OrderedSet.pairwise_ofList {α : Type} [DecidableEq α] (as : List α) :
    (ofList as).toList.Pairwise (fun a b => as.idxOf a < as.idxOf b) := by
  show as.eraseDups.Pairwise _
  induction as using List.reverseRecOn with
  | nil => exact .nil
  | append_singleton as a ih =>
    have hold : as.eraseDups.Pairwise fun x y => (as ++ [a]).idxOf x < (as ++ [a]).idxOf y := by
      refine ih.imp_of_mem fun hx hy hlt => ?_
      rw [List.idxOf_append_of_mem (List.mem_eraseDups.mp hx),
        List.idxOf_append_of_mem (List.mem_eraseDups.mp hy)]
      exact hlt
    rw [List.eraseDups_append]
    by_cases ha : a ∈ as
    · have hnone : [a].removeAll as = [] := by simp [List.removeAll, ha]
      rw [hnone, List.eraseDups_nil, List.append_nil]
      exact hold
    · have hlast : ([a].removeAll as).eraseDups = [a] := by
        simp [List.removeAll, ha, List.eraseDups_cons]
      rw [hlast, List.pairwise_append]
      refine ⟨hold, List.pairwise_singleton _ a, fun x hx y hy => ?_⟩
      obtain rfl := List.mem_singleton.mp hy
      have hx : x ∈ as := List.mem_eraseDups.mp hx
      have hlt : as.idxOf x < as.length := List.idxOf_lt_length_iff.mpr hx
      rw [List.idxOf_append_of_mem hx, List.idxOf_append_of_notMem ha]
      omega

namespace ClauseSet

variable {s : ClauseSet}

/-- The set after an edit. -/
def edit (s : ClauseSet) : Edit → ClauseSet
  | .add literals => s.add (Clause.ofList literals)
  | .restrict l => s.restrict l

/-- The set after several edits in turn. -/
def editAll (s : ClauseSet) (edits : List Edit) : ClauseSet := edits.foldl edit s

theorem hasEmptyClause_edit (h : s.hasEmptyClause = true) (e : Edit) :
    (s.edit e).hasEmptyClause = true := by
  cases e with
  | add literals =>
    obtain ⟨c, hc, hempty⟩ := hasEmptyClause_iff.mp h
    exact hasEmptyClause_iff.mpr ⟨c, List.mem_append_left _ hc, hempty⟩
  | restrict l => exact hasEmptyClause_restrict l h

theorem hasEmptyClause_editAll (h : s.hasEmptyClause = true) (edits : List Edit) :
    (s.editAll edits).hasEmptyClause = true := by
  induction edits generalizing s with
  | nil => exact h
  | cons e edits ih => exact ih (hasEmptyClause_edit h e)

/-- Each clause is edited on its own, and the added clauses come last. -/
theorem clauses_editAll (s : ClauseSet) (edits : List Edit) :
    (s.editAll edits).clauses =
      s.clauses.filterMap (·.after edits) ++ Edit.additions edits := by
  induction edits generalizing s with
  | nil => simp [editAll, Clause.after, Edit.additions]
  | cons e edits ih =>
    show ((s.edit e).editAll edits).clauses = _
    rw [ih]
    cases e with
    | add literals =>
      show (s.clauses ++ [Clause.ofList literals]).filterMap _ ++ _ = _ ++ (_ ++ _)
      rw [List.filterMap_append, List.append_assoc,
        List.filterMap_eq_flatMap_toList _ [Clause.ofList literals], List.flatMap_singleton]
      rfl
    | restrict l =>
      show (s.clauses.filterMap _).filterMap _ ++ _ = _
      rw [List.filterMap_filterMap]
      rfl

/-- The list has each atom of the set once, in the order in which the atoms first occur. -/
structure ListsAtoms (s : ClauseSet) (atoms : List Atom) : Prop where
  once : ∀ c ∈ s.clauses, ∀ l ∈ c, atoms.count l.atom = 1
  occurs : ∀ a ∈ atoms, ∃ c ∈ s.clauses, ∃ l ∈ c, l.atom = a
  ordered : atoms.Pairwise fun a b =>
    (s.literals.map (·.atom)).idxOf a < (s.literals.map (·.atom)).idxOf b

theorem listsAtoms_atoms (s : ClauseSet) : s.ListsAtoms s.atoms.toList where
  once c hc l hl := by
    have hmem : l ∈ s.literals := mem_literals.mpr ⟨c, hc, hl⟩
    exact List.count_eq_one_of_mem s.atoms.nodup (mem_atoms.mpr ⟨l, hmem, rfl⟩)
  occurs a ha := by
    obtain ⟨l, hl, hla⟩ := mem_atoms.mp ha
    obtain ⟨c, hc, hlc⟩ := mem_literals.mp hl
    exact ⟨c, hc, l, hlc, hla⟩
  ordered := OrderedSet.pairwise_ofList _

end ClauseSet

/-! ### Stored clauses under edits -/

namespace MarkedClauseSet

variable {m : MarkedClauseSet} {s : ClauseSet} {text : List Char}

/-- The set after an edit. -/
def edit (m : MarkedClauseSet) : Edit → MarkedClauseSet
  | .add literals => m.add (MarkedClause.ofList literals)
  | .restrict l => m.restrict l

/-- The set after several edits in turn. -/
def editAll (m : MarkedClauseSet) (edits : List Edit) : MarkedClauseSet := edits.foldl edit m

theorem Represents.edit (h : m.Represents s) (e : Edit) : (m.edit e).Represents (s.edit e) := by
  cases e with
  | add literals => exact h.add literals
  | restrict l => exact h.restrict l

theorem Represents.editAll (h : m.Represents s) (edits : List Edit) :
    (m.editAll edits).Represents (s.editAll edits) := by
  induction edits generalizing m s with
  | nil => exact h
  | cons e edits ih => exact ih (h.edit e)

/-- The set that a text in braces is stored as, with a clause for the literals in each pair of
braces. -/
def ReadInBraces (text : List Char) (m : MarkedClauseSet) : Prop :=
  ∃ rows, Text.withoutBlanks text = ClauseSet.written rows ∧
    m = ofRows (rows.map List.reduceOption)

/-- The set that a conjunction of conjuncts is stored as, with a clause for the literals of each
conjunct. -/
def ReadAsFormula (text : List Char) (m : MarkedClauseSet) : Prop :=
  Token.IsConjunctive (Token.scan (stripOuterParens text)) ∧
    m = ofRows ((Token.segments (Token.scan (stripOuterParens text))).map (Token.literals false))

/-- A text in braces is read as the set that its stored clauses represent. -/
theorem parse_eq_ok_iff_represents :
    ClauseSet.parse text = .ok s ↔ ∃ m, ReadInBraces text m ∧ m.Represents s := by
  rw [ClauseSet.parse_eq_ok_iff]
  constructor
  · rintro ⟨rows, hrows, rfl⟩
    refine ⟨_, ⟨rows, hrows, rfl⟩, represents_ofRows_iff.mpr ?_⟩
    rw [List.map_map]
    rfl
  · rintro ⟨_, ⟨rows, hrows, rfl⟩, hrep⟩
    refine ⟨rows, hrows, ?_⟩
    rw [represents_ofRows_iff.mp hrep, List.map_map]
    rfl

/-- A formula is read as the set that its stored clauses represent. -/
theorem clausesOfText_eq_ok_iff_represents :
    clausesOfText text = .ok s ↔ ∃ m, ReadAsFormula text m ∧ m.Represents s := by
  have hattached : ∀ t ∈ Token.scan (stripOuterParens text), t.Attached := fun t ht =>
    Token.attached_of_mem_scan ht
  rw [clausesOfText, clausesOfTokens_eq_ok_iff hattached]
  constructor
  · rintro ⟨hconj, rfl⟩
    refine ⟨_, ⟨hconj, rfl⟩, represents_ofRows_iff.mpr ?_⟩
    rw [List.map_map]
    rfl
  · rintro ⟨_, ⟨hconj, rfl⟩, hrep⟩
    refine ⟨hconj, ?_⟩
    rw [represents_ofRows_iff.mp hrep, List.map_map]
    rfl

end MarkedClauseSet

/-- Whatever is added to a clause set and by whatever literals it is restricted, the stored form of
the set stays what it was when it was read from a text: each stored clause is the marker or an
ordered set of at least one literal, and the stored clauses represent those of the set and answer
as they do.  A set with an empty clause keeps one, and the atoms are listed once each, by first
occurrence.  The clauses that are left keep their order, the added ones last; each has the literals
of its origin over the atoms that were not settled, in order, and is the empty clause exactly if
there are none. -/
theorem ClauseSet.edits_keep_representation (s : ClauseSet) (edits : List Edit) :
    (∀ text, parse text = .ok s ↔
      ∃ m, MarkedClauseSet.ReadInBraces text m ∧ m.Represents s) ∧
    (∀ text, clausesOfText text = .ok s ↔
      ∃ m, MarkedClauseSet.ReadAsFormula text m ∧ m.Represents s) ∧
    (∀ m : MarkedClauseSet, m.Represents s →
      (∀ c ∈ (m.editAll edits).clauses, c.IsProper) ∧
      (m.editAll edits).Represents (s.editAll edits) ∧
      (m.editAll edits).AnswersLike (s.editAll edits)) ∧
    (∀ later, (s.editAll edits).hasEmptyClause = true →
      (s.editAll (edits ++ later)).hasEmptyClause = true) ∧
    (s.editAll edits).clauses =
      s.clauses.filterMap (·.after edits) ++ Edit.additions edits ∧
    (∀ c d : Clause, c.after edits = some d →
      d.literals.toList = c.literals.toList.filter (·.atom ∉ Edit.settled edits) ∧
      (d.isEmpty = true ↔ ∀ l ∈ c, l.atom ∈ Edit.settled edits)) ∧
    (s.editAll edits).ListsAtoms (s.editAll edits).atoms.toList := by
  refine ⟨fun text => MarkedClauseSet.parse_eq_ok_iff_represents,
    fun text => MarkedClauseSet.clausesOfText_eq_ok_iff_represents, fun m hm => ?_,
    fun later hempty => ?_, s.clauses_editAll edits,
    fun c d h => ⟨Clause.toList_after h, Clause.isEmpty_after_iff h⟩, listsAtoms_atoms _⟩
  · have hedited : (m.editAll edits).Represents (s.editAll edits) := hm.editAll edits
    exact ⟨hedited.isProper, hedited, hedited.answersLike⟩
  · rw [editAll, List.foldl_append]
    exact hasEmptyClause_editAll hempty later

end Clausal
