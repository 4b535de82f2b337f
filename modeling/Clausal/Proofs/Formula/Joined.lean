import Mathlib
import Clausal.Proofs.Formula.Conjunctive
import Clausal.Proofs.Formula.InParens

/-! # Joined literals

Tokens are well formed if a connective between formulas stands right behind each atom but the last,
and nowhere else (`Token.sequenceFaults_eq_nil_iff_joinedBy`).  The reader of clauses asks this of
`and`s, but within a span it never asks for the `or`s.  So a text may have clauses and yet not be
well formed, like `(A B)`: of the texts with clauses those are well formed that join the literals of
each conjunct by `or`s and have no blank uncovered by stripping
(`Formula.faults_of_clausesOfText`). -/

namespace Clausal

namespace Token

variable {joins joins' : Token → Prop} {t u : Token} {ts seg : List Token} {previous : Option Term}

/-- A joining token stands right behind each atom but the last, with which the tokens end, and
nowhere else. -/
structure JoinedBy (joins : Token → Prop) (ts : List Token) : Prop where
  first : ∀ t ∈ ts.head?, ¬ joins t
  between : ts.IsChain fun t u => t.IsAtom ↔ joins u
  last : ∃ t ∈ ts.getLast?, t.IsAtom

/-- The token is a connective between formulas. -/
def IsJunctor (t : Token) : Prop := ∃ op, t.kind = .binary op

/-- The token is an `or`. -/
def IsOr (t : Token) : Prop := t.kind = .binary .or

/-! ### Well-formed sequences -/

/-- Whether an atom decides what may come next. -/
def EndsAtom (previous : Option Term) : Prop := ∃ a, previous = some (.atom a)

theorem not_endsAtom_none : ¬ EndsAtom none := by
  rintro ⟨a, ⟨⟩⟩

theorem endsAtom_after (ht : t.IsTerm) : EndsAtom (Term.after previous t.kind) ↔ t.IsAtom := by
  obtain ⟨hparens, hunknown⟩ := ht
  cases hkind : t.kind with
  | atom a => simp [EndsAtom, Term.after, IsAtom, hkind]
  | unary op => simp [EndsAtom, Term.after, IsAtom, hkind]
  | binary op => simp [EndsAtom, Term.after, IsAtom, hkind]
  | unknown w => exact absurd hkind (hunknown w)
  | parens => exact absurd hkind hparens

theorem faultsAt_eq_nil_iff (ht : t.IsTerm) :
    faultsAt previous t = [] ↔ (EndsAtom previous ↔ t.IsJunctor) := by
  obtain ⟨hparens, hunknown⟩ := ht
  cases hkind : t.kind with
  | atom a => rcases previous with _ | _ | _ <;> simp [faultsAt, EndsAtom, IsJunctor, hkind]
  | unary op => rcases previous with _ | _ | _ <;> simp [faultsAt, EndsAtom, IsJunctor, hkind]
  | binary op => rcases previous with _ | _ | _ <;> simp [faultsAt, EndsAtom, IsJunctor, hkind]
  | unknown w => exact absurd hkind (hunknown w)
  | parens => exact absurd hkind hparens

theorem sequenceFaults_nil_iff : sequenceFaults previous [] = [] ↔ EndsAtom previous := by
  rcases previous with _ | _ | _ <;> simp [sequenceFaults, EndsAtom]

theorem sequenceFaults_cons_iff (hts : ∀ u ∈ t :: ts, u.IsTerm) :
    sequenceFaults previous (t :: ts) = [] ↔
      (EndsAtom previous ↔ t.IsJunctor) ∧ (t :: ts).IsChain (fun t u => t.IsAtom ↔ u.IsJunctor) ∧
        ∃ u ∈ (t :: ts).getLast?, u.IsAtom := by
  induction ts generalizing previous t with
  | nil =>
    rw [List.forall_mem_singleton] at hts
    rw [sequenceFaults_cons, List.append_eq_nil_iff, faultsAt_eq_nil_iff hts,
      sequenceFaults_nil_iff, endsAtom_after hts]
    simp
  | cons u ts ih =>
    obtain ⟨ht, hus⟩ := List.forall_mem_cons.mp hts
    rw [sequenceFaults_cons, List.append_eq_nil_iff, faultsAt_eq_nil_iff ht, ih hus,
      endsAtom_after ht, List.isChain_cons_cons, List.getLast?_cons_cons, and_assoc]

theorem sequenceFaults_eq_nil_iff_joinedBy (hts : ∀ t ∈ ts, t.IsTerm) :
    sequenceFaults none ts = [] ↔ JoinedBy IsJunctor ts := by
  cases ts with
  | nil =>
    rw [sequenceFaults_nil_iff]
    refine iff_of_false not_endsAtom_none fun h => ?_
    obtain ⟨t, ⟨⟩, -⟩ := h.last
  | cons t ts =>
    rw [sequenceFaults_cons_iff hts, iff_false_left not_endsAtom_none]
    constructor
    · rintro ⟨hfirst, hbetween, hlast⟩
      exact ⟨fun u hu => by cases hu; exact hfirst, hbetween, hlast⟩
    · intro h
      exact ⟨h.first t rfl, h.between, h.last⟩

/-! ### Sequences of conjuncts -/

/-- A joining token that is no atom has joined tokens on either side. -/
theorem joinedBy_append_cons (hjoins : joins t) (hatom : ¬ t.IsAtom) :
    JoinedBy joins (seg ++ t :: ts) ↔ JoinedBy joins seg ∧ JoinedBy joins ts := by
  constructor
  · intro h
    obtain ⟨hseg, hrest, hmeet⟩ := List.isChain_append.mp h.between
    obtain ⟨hnext, hts⟩ := List.isChain_cons.mp hrest
    have hbefore : seg ≠ [] := by
      rintro rfl
      exact h.first t rfl hjoins
    have hbehind : ts ≠ [] := by
      rintro rfl
      obtain ⟨u, hu, hlast⟩ := h.last
      rw [List.getLast?_concat] at hu
      cases hu
      exact hatom hlast
    refine ⟨⟨fun u hu => h.first u ?_, hseg, ?_⟩, ⟨fun u hu hjoin => ?_, hts, ?_⟩⟩
    · exact List.mem_head?_append_of_mem_head? hu
    · refine ⟨seg.getLast hbefore, List.getLast?_eq_some_getLast hbefore, ?_⟩
      exact (hmeet _ (List.getLast?_eq_some_getLast hbefore) t rfl).mpr hjoins
    · exact hatom ((hnext u hu).mpr hjoin)
    · obtain ⟨u, hu, hlast⟩ := h.last
      rw [List.getLast?_append_of_ne_nil _ (List.cons_ne_nil t ts),
        List.getLast?_cons_of_ne_nil hbehind] at hu
      exact ⟨u, hu, hlast⟩
  · rintro ⟨hseg, hts⟩
    obtain ⟨x, hx, hlastSeg⟩ := hseg.last
    obtain ⟨y, hy, hlast⟩ := hts.last
    have hrest : (t :: ts).IsChain fun t u => t.IsAtom ↔ joins u :=
      List.isChain_cons.mpr ⟨fun u hu => iff_of_false hatom (hts.first u hu), hts.between⟩
    refine ⟨fun u hu => ?_, List.isChain_append.mpr ⟨hseg.between, hrest, ?_⟩, y, ?_, hlast⟩
    · rw [List.head?_append_of_ne_nil _ (List.ne_nil_of_mem (List.mem_of_mem_getLast? hx))] at hu
      exact hseg.first u hu
    · rintro u hu v ⟨⟩
      obtain rfl : x = u := Option.mem_unique hx hu
      exact iff_of_true hlastSeg hjoins
    · rw [← List.singleton_append, ← List.append_assoc]
      exact List.mem_getLast?_append_of_mem_getLast? hy

theorem joinedBy_congr (h : ∀ t ∈ ts, joins t ↔ joins' t) :
    JoinedBy joins ts ↔ JoinedBy joins' ts := by
  have hfirst : (∀ t ∈ ts.head?, ¬ joins t) ↔ ∀ t ∈ ts.head?, ¬ joins' t :=
    forall₂_congr fun t ht => not_congr (h t (List.mem_of_mem_head? ht))
  have hbetween : ts.IsChain (fun t u => t.IsAtom ↔ joins u) ↔
      ts.IsChain fun t u => t.IsAtom ↔ joins' u :=
    List.IsChain.iff_of_mem_imp fun _ u _ hu => iff_congr Iff.rfl (h u hu)
  exact ⟨fun hj => ⟨hfirst.mp hj.first, hbetween.mp hj.between, hj.last⟩,
    fun hj => ⟨hfirst.mpr hj.first, hbetween.mpr hj.between, hj.last⟩⟩

/-- The only connectives between formulas in a conjunct are `or`s. -/
theorem IsConjunct.joinedBy_iff (h : IsConjunct seg) :
    JoinedBy IsJunctor seg ↔ JoinedBy IsOr seg := by
  refine joinedBy_congr fun t ht => ?_
  obtain ⟨a, hkind⟩ | hkind | hkind := h.kinds t ht <;> simp [IsJunctor, IsOr, hkind]

theorem Conjoined.joinedBy_iff (h : Conjoined ts) :
    JoinedBy IsJunctor ts ↔ ∀ seg ∈ segments ts, JoinedBy IsOr seg := by
  have hands : ∀ seg, IsConjunct seg → ∀ t ∈ seg, t.isAnd = false := fun seg hseg t ht =>
    isAnd_eq_false_of_kind (hseg.kinds t ht)
  induction h with
  | @single seg hseg =>
    rw [segments_single (hands seg hseg), List.forall_mem_singleton, hseg.joinedBy_iff]
  | @join seg ts t hseg hand _ _ ih =>
    have hkind := kind_eq_and_of_isAnd hand
    have hjoins : t.IsJunctor := ⟨.and, hkind⟩
    have hatom : ¬ t.IsAtom := by simp [IsAtom, hkind]
    rw [segments_join (hands seg hseg) hand, List.forall_mem_cons,
      joinedBy_append_cons hjoins hatom, hseg.joinedBy_iff]
    exact and_congr_right fun _ => ih

theorem Conjoined.syntaxFaults_eq_nil_iff (h : Conjoined ts) :
    syntaxFaults ts = [] ↔ ∀ seg ∈ segments ts, JoinedBy IsOr seg := by
  rw [syntaxFaults, h.parenFaults_eq_nil, List.append_nil,
    sequenceFaults_eq_nil_iff_joinedBy h.isTerm, h.joinedBy_iff]

end Token

/-! ### Texts with clauses -/

open Token (segments JoinedBy IsOr IsConjunctive)

namespace Formula

variable {text : List Char} {s : ClauseSet}

theorem isConjunctive_of_clausesOfText (h : clausesOfText text = .ok s) :
    IsConjunctive (Token.scan (stripOuterParens text)) := by
  have hattached : ∀ t ∈ Token.scan (stripOuterParens text), t.Attached := fun t ht =>
    Token.attached_of_mem_scan ht
  exact ((clausesOfTokens_eq_ok_iff hattached).mp h).1

/-- A text with clauses has words. -/
theorem scan_ne_nil_of_clausesOfText (h : clausesOfText text = .ok s) : Token.scan text ≠ [] := by
  intro hnil
  have hwords : Text.words text = [] := List.map_eq_nil_iff.mp hnil
  have hconjuncts := (isConjunctive_of_clausesOfText h).conjuncts
  rw [stripOuterParens_eq_nil hwords] at hconjuncts
  exact Token.not_isConjunct_nil (hconjuncts [] (by decide))

/-- A text with clauses is checked as a formula without failing, and it is well formed exactly if
in each conjunct an `or` stands right behind each literal but the last, and nowhere else, and no
blank is uncovered by stripping. -/
theorem faults_of_clausesOfText (h : clausesOfText text = .ok s) :
    (∃ found, faults text = .ok found) ∧
      (faults text = .ok [] ↔
        (∀ seg ∈ segments (Token.scan (stripOuterParens text)), JoinedBy IsOr seg) ∧
          ¬ UncoversBlank text) := by
  have hfaults := faults_of_scan_ne_nil (scan_ne_nil_of_clausesOfText h)
  have hconjoined := (isConjunctive_of_clausesOfText h).conjoined
  refine ⟨⟨_, hfaults⟩, ?_⟩
  rw [hfaults, Except.ok.injEq, syntaxFaults_eq_nil_iff, ← hconjoined.syntaxFaults_eq_nil_iff,
    syntaxFaults_eq_nil_iff]
  constructor
  · intro hwell
    have hblank := hwell.not_uncoversBlank
    exact ⟨(isWellFormed_stripOuterParens_iff hblank).mpr hwell, hblank⟩
  · rintro ⟨hwell, hblank⟩
    exact (isWellFormed_stripOuterParens_iff hblank).mp hwell

/-- The clauses of a well-formed text, one of them with a negated literal, joined as they should
be. -/
theorem faults_of_clausesOfText_of_wrapped_text :
    let a : Atom := ⟨'A', by decide⟩
    let b : Atom := ⟨'B', by decide⟩
    let text := "((A or not B) and B)".toList
    clausesOfText text =
        .ok ⟨[Clause.ofList [Literal.positive a, Literal.negative b], Clause.unit ⟨b, false⟩]⟩ ∧
      (∃ found, faults text = .ok found) ∧
      (∀ seg ∈ segments (Token.scan (stripOuterParens text)), JoinedBy IsOr seg) ∧
      ¬ UncoversBlank text := by
  intro a b text
  have hclauses : clausesOfText text =
      .ok ⟨[Clause.ofList [Literal.positive a, Literal.negative b], Clause.unit ⟨b, false⟩]⟩ := by
    decide +kernel
  obtain ⟨hfound, hiff⟩ := faults_of_clausesOfText hclauses
  have hfaults : faults text = .ok [] := by decide +kernel
  exact ⟨hclauses, hfound, hiff.mp hfaults⟩

/-- Two literals without an `or` make up a clause, but not a well-formed text. -/
theorem not_forall_faults_of_clausesOfText :
    ¬ ∀ text s, clausesOfText text = .ok s → faults text = .ok [] := by
  intro h
  let a : Atom := ⟨'A', by decide⟩
  let b : Atom := ⟨'B', by decide⟩
  have hclauses : clausesOfText "(A B)".toList =
      .ok ⟨[Clause.ofList [Literal.positive a, Literal.positive b]]⟩ := by
    decide +kernel
  have hfaults := h _ _ hclauses
  revert hfaults
  decide +kernel

-- the parenthesis behind the blank is loose, but the clauses are read without it
example :
    let a : Atom := ⟨'A', by decide⟩
    clausesOfText "((A) )".toList = .ok ⟨[Clause.unit (Literal.positive a)]⟩ ∧
      faults "((A) )".toList = .ok [.looseParens [')']] := by
  decide +kernel

end Formula
end Clausal
