import Mathlib
import Clausal.Formula.ClauseReader
import Clausal.Proofs.Formula.Token

/-! # Readers that cannot succeed

Reading never withdraws a fault (`faults_read`).  A reader is doomed if it has reported a fault or
will have to (`Doomed`): whatever it reads next, it stays doomed (`doomed_foldl_read`), and a
doomed reader ends with a fault (`allFaults_of_doomed`). -/

namespace Clausal.ClauseReader

variable {r : ClauseReader} {t : Token} {n : ℕ}

/-! ### Reported faults -/

theorem ne_nil_of_prefix_of_ne {α : Type} {before after : List α} (h : before <+: after)
    (hne : before ≠ []) : after ≠ [] := by
  rintro rfl
  exact hne (List.prefix_nil.mp h)

theorem faults_startConjunct (r : ClauseReader) : r.faults <+: r.startConjunct.faults := by
  unfold startConjunct
  by_cases hands : r.ands = if r.started then 1 else 0
  · rw [if_pos hands]
  · rw [if_neg hands]
    split <;> exact List.prefix_append _ _

theorem faults_literal (r : ClauseReader) (l : Literal) : r.faults <+: (r.literal l).faults := by
  unfold literal
  split
  · exact r.faults_startConjunct
  · exact List.prefix_rfl

theorem faults_openParens (r : ClauseReader) (n : ℕ) : r.faults <+: (r.openParens n).faults := by
  unfold openParens
  split
  · exact List.prefix_rfl
  · split
    · exact r.faults_startConjunct
    · exact List.prefix_rfl

theorem faults_endSpan (r : ClauseReader) : r.faults <+: r.endSpan.faults := by
  unfold endSpan
  split
  · exact List.prefix_append _ _
  · exact List.prefix_rfl

theorem faults_closeParens (r : ClauseReader) (n : ℕ) : r.faults <+: (r.closeParens n).faults := by
  unfold closeParens
  split
  · exact List.prefix_rfl
  · split
    · exact List.prefix_append _ _
    · exact r.faults_endSpan.trans (List.prefix_append _ _)

theorem faults_term (r : ClauseReader) (t : Token) : r.faults <+: (r.term t).faults := by
  unfold term
  split
  · exact r.faults_literal _
  · exact List.prefix_rfl
  · exact List.prefix_append _ _
  · split
    · exact List.prefix_rfl
    · exact List.prefix_append _ _
  · split
    · exact List.prefix_append _ _
    · exact List.prefix_rfl
  · exact List.prefix_append _ _
  · dsimp only
    split
    · exact List.prefix_append _ _
    · exact (List.prefix_append _ _).trans (List.prefix_append _ _)
  · exact List.prefix_append _ _
  · exact List.prefix_append _ _

/-- Only atoms, `not`s, `or`s and `and`s are ever taken in without a fault. -/
theorem faults_term_ne_nil (hkind : ¬ (t.IsAtom ∨ t.kind = .unary .not ∨ t.kind = .binary .or))
    (hand : t.kind ≠ .binary .and) : (r.term t).faults ≠ [] := by
  unfold term
  split
  · next a hatom => exact absurd (.inl ⟨a, hatom⟩) hkind
  · next hnot => exact absurd (.inr (.inl hnot)) hkind
  · simp [report]
  · next h => exact absurd h hand
  · next hor => exact absurd (.inr (.inr hor)) hkind
  · simp [report]
  · dsimp only
    split <;> simp [report]
  · simp [report]
  · simp [report]

theorem faults_readPlain (r : ClauseReader) (t : Token) : r.faults <+: (r.readPlain t).faults :=
  ((r.faults_openParens _).trans (faults_term _ t)).trans (faults_closeParens _ _)

/-- Reading never withdraws a fault. -/
theorem faults_read (r : ClauseReader) (t : Token) : r.faults <+: (r.read t).faults := by
  unfold read
  split
  · dsimp only
    split
    · exact (faults_literal { r with negating := false } _).trans (faults_closeParens _ _)
    · exact (List.prefix_append r.faults _).trans
        (faults_readPlain ({ r with negating := false }.report _) t)
  · exact r.faults_readPlain t

theorem read_eq_readPlain (h : r.negating = false) (t : Token) : r.read t = r.readPlain t := by
  rw [read, h]
  rfl

theorem read_negated_atom {a : Atom} (h : r.negating = true) (hkind : t.kind = .atom a)
    (hopens : t.opens = 0) :
    r.read t =
      (({ r with negating := false } : ClauseReader).literal ⟨a, true⟩).closeParens t.closes := by
  rw [read, if_pos h, hkind, hopens]
  rfl

theorem read_negated_other (h : r.negating = true) (hother : ∀ a, t.kind = .atom a → t.opens ≠ 0) :
    r.read t = (({ r with negating := false } : ClauseReader).report
      (.notWithoutAtom t.text)).readPlain t := by
  rw [read, if_pos h]
  dsimp only
  split
  · next a hkind hopens => exact absurd hopens (hother a hkind)
  · rfl

/-- After a `not`, anything but a bare opening of an atom is reported. -/
theorem faults_read_ne_nil (h : r.negating = true)
    (hother : ∀ a, t.kind = .atom a → t.opens ≠ 0) : (r.read t).faults ≠ [] := by
  rw [read_negated_other h hother]
  exact ne_nil_of_prefix_of_ne (faults_readPlain _ t) (by simp [report])

/-! ### Doomed readers -/

/-- The reader has reported a fault, or will have to: it has met an `and` too many, or a `not`
where no conjunct may begin. -/
def Doomed (r : ClauseReader) : Prop :=
  r.faults ≠ [] ∨
    r.depth = 0 ∧ (r.ands ≠ if r.started then 1 else 0) ∧ (r.ands ≠ 0 ∨ r.negating = true)

theorem Doomed.of_faults {r' : ClauseReader} (h : r.faults ≠ []) (hmore : r.faults <+: r'.faults) :
    r'.Doomed :=
  .inl (ne_nil_of_prefix_of_ne hmore h)

/-- A conjunct that begins at the wrong number of `and`s is reported. -/
theorem faults_startConjunct_ne_nil (h : r.ands ≠ if r.started then 1 else 0) :
    r.startConjunct.faults ≠ [] := by
  unfold startConjunct
  rw [if_neg h]
  split <;> simp [report]

theorem closeParens_zero (r : ClauseReader) : r.closeParens 0 = r := by
  unfold closeParens
  split
  · rfl
  · next h =>
    rw [if_pos (Nat.eq_zero_of_not_pos h), Nat.zero_sub, List.replicate_zero]
    dsimp only
    rw [List.append_nil]

theorem doomed_closeParens (h : r.Doomed) (n : ℕ) : (r.closeParens n).Doomed := by
  rcases h with hfaults | ⟨hdepth, hands⟩
  · exact .of_faults hfaults (r.faults_closeParens n)
  · cases n with
    | zero => exact r.closeParens_zero.symm ▸ .inr ⟨hdepth, hands⟩
    | succ n => exact .inl (by simp [closeParens, hdepth, List.replicate_succ])

/-- An opening parenthesis or a literal outside any span begins a conjunct. -/
theorem faults_openParens_ne_nil (hdepth : r.depth = 0)
    (hands : r.ands ≠ if r.started then 1 else 0) (hn : n ≠ 0) : (r.openParens n).faults ≠ [] := by
  simpa [openParens, hn, hdepth] using faults_startConjunct_ne_nil hands

theorem faults_literal_ne_nil (hdepth : r.depth = 0)
    (hands : r.ands ≠ if r.started then 1 else 0) (l : Literal) : (r.literal l).faults ≠ [] := by
  simpa [literal, hdepth, keep] using faults_startConjunct_ne_nil hands

theorem doomed_term (hdepth : r.depth = 0) (hands : r.ands ≠ if r.started then 1 else 0)
    (hkind : t.kind = .binary .and → r.ands ≠ 0) : (r.term t).Doomed := by
  unfold term
  split
  · exact .inl (faults_literal_ne_nil hdepth hands _)
  · exact .inr ⟨hdepth, hands, .inr rfl⟩
  · exact .inl (by simp [report])
  · next h =>
    have hzero := hkind h
    rw [if_pos hdepth]
    refine .inr ⟨hdepth, ?_, .inl (Nat.succ_ne_zero _)⟩
    dsimp only
    split <;> omega
  · exact .inl (by simp [hdepth, report])
  · exact .inl (by simp [report])
  · exact .inl (by simp [hdepth, report])
  · exact .inl (by simp [report])
  · exact .inl (by simp [report])

theorem doomed_readPlain (hdepth : r.depth = 0) (hands : r.ands ≠ if r.started then 1 else 0)
    (hkind : t.kind = .binary .and → r.ands ≠ 0) : (r.readPlain t).Doomed := by
  by_cases hopens : t.opens = 0
  · rw [readPlain, hopens, openParens, if_pos rfl]
    exact doomed_closeParens (doomed_term hdepth hands hkind) _
  · exact .of_faults (faults_openParens_ne_nil hdepth hands hopens)
      ((faults_term _ t).trans (faults_closeParens _ _))

theorem doomed_read (h : r.Doomed) (t : Token) : (r.read t).Doomed := by
  rcases h with hfaults | ⟨hdepth, hands, hwaits⟩
  · exact .of_faults hfaults (r.faults_read t)
  · by_cases hneg : r.negating = true
    · by_cases hatom : ∃ a, t.kind = .atom a ∧ t.opens = 0
      · obtain ⟨a, hkind, hopens⟩ := hatom
        rw [read_negated_atom hneg hkind hopens]
        exact .of_faults (faults_literal_ne_nil (r := { r with negating := false }) hdepth hands _)
          (faults_closeParens _ _)
      · exact .inl (faults_read_ne_nil hneg fun a hkind hopens => hatom ⟨a, hkind, hopens⟩)
    · rw [read_eq_readPlain (Bool.eq_false_iff.mpr hneg)]
      exact doomed_readPlain hdepth hands fun _ => hwaits.resolve_right hneg

theorem doomed_foldl_read (h : r.Doomed) (ts : List Token) : (ts.foldl read r).Doomed := by
  induction ts generalizing r with
  | nil => exact h
  | cons t ts ih => exact ih (doomed_read h t)

theorem allFaults_of_doomed (h : r.Doomed) : r.allFaults ≠ [] := by
  have hfaults : r.faults ++ r.endFaults ≠ [] := by
    rcases h with hfaults | ⟨-, -, hwaits⟩
    · simp [hfaults]
    · by_cases hneg : r.negating = true
      · simp [endFaults, hneg]
      · simp [endFaults, hneg, Nat.pos_of_ne_zero (hwaits.resolve_right hneg)]
  unfold allFaults
  dsimp only
  rw [if_neg (fun h => hfaults h.1)]
  exact hfaults

theorem finish_eq_ok_iff {s : ClauseSet} :
    r.finish = .ok s ↔ r.allFaults = [] ∧ s = ⟨r.clauses⟩ := by
  unfold finish
  split
  · next h => simp [h, eq_comm]
  · next h => simp [h]

theorem finish_ne_ok_of_doomed (h : r.Doomed) (ts : List Token) (s : ClauseSet) :
    (ts.foldl read r).finish ≠ .ok s := fun hok =>
  allFaults_of_doomed (doomed_foldl_read h ts) (finish_eq_ok_iff.mp hok).1

end Clausal.ClauseReader
