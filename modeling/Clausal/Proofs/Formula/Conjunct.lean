import Mathlib
import Clausal.Proofs.Formula.Phase

/-! # Conjuncts

The surface form of a conjunct, said without a reader: a bare literal, or a span, in which the
parentheses that the first token opens are closed by the last and not before (`IsConjunct`).  The
phases of a reader accept exactly the conjuncts and make up their clauses
(`Phase.conjunct?_eq_some_iff`), so a sequence of tokens is read as clauses exactly if every piece
between its `and`s is a conjunct (`clausesOfTokens_eq_ok_iff`). -/

namespace Clausal

namespace Token

variable {t u : Token} {ts seg : List Token} {d : ℤ} {negating : Bool}

/-- The token carries no parenthesis. -/
def Bare (t : Token) : Prop := t.opens = 0 ∧ t.closes = 0

/-- The parentheses that tokens open, less those that they close. -/
def depth (ts : List Token) : ℤ := (ts.map fun t => (t.opens : ℤ) - t.closes).sum

/-- Each `not` is followed at once by an atom, with no parenthesis before the atom. -/
def NotsNegateAtoms (ts : List Token) : Prop :=
  ∀ k t, ts[k]? = some t → t.kind = .unary .not → ∃ u, ts[k + 1]? = some u ∧ u.IsAtom ∧ u.opens = 0

/-- A span: atoms, `not`s and `or`s that the parentheses of the first token enclose up to the
last. -/
structure IsSpan (seg : List Token) : Prop where
  kinds : ∀ t ∈ seg, t.IsAtom ∨ t.kind = .unary .not ∨ t.kind = .binary .or
  opened : ∃ t, seg[0]? = some t ∧ 0 < t.opens
  enclosed : ∀ k, 0 < k → k < seg.length → 0 < depth (seg.take k)
  closed : depth seg = 0
  negations : NotsNegateAtoms seg

/-- A conjunct: an atom or a negated atom without parentheses, or a span. -/
inductive IsConjunct : List Token → Prop
  | atom {t : Token} : t.IsAtom → t.Bare → IsConjunct [t]
  | negation {t u : Token} : t.kind = .unary .not → t.Bare → u.IsAtom → u.Bare → IsConjunct [t, u]
  | span {seg : List Token} : IsSpan seg → IsConjunct seg

/-- The literals of tokens: the atoms in order, each negated if a `not` stands right before it. -/
def literals : Bool → List Token → List Literal
  | _, [] => []
  | negated, t :: ts =>
    match t.kind with
    | .atom a => ⟨a, negated⟩ :: literals false ts
    | kind => literals (kind = .unary .not) ts

/-- The surface form of a conjunction of clauses: conjuncts joined by `and`s without
parentheses. -/
structure IsConjunctive (ts : List Token) : Prop where
  ands : ∀ t ∈ ts, t.isAnd = true → t.Bare
  conjuncts : ∀ seg ∈ segments ts, IsConjunct seg

/-- The clause of a conjunct. -/
def clauseOf (seg : List Token) : Clause := Clause.ofList (literals false seg)

/-! ### Spans, token by token -/

@[simp]
theorem depth_nil : depth [] = 0 := rfl

@[simp]
theorem depth_cons (t : Token) (ts : List Token) :
    depth (t :: ts) = t.opens - t.closes + depth ts :=
  List.sum_cons

theorem notsNegateAtoms_nil : NotsNegateAtoms [] := fun _ _ h => by simp at h

theorem notsNegateAtoms_cons : NotsNegateAtoms (t :: ts) ↔
    (t.kind = .unary .not → ∃ u, ts[0]? = some u ∧ u.IsAtom ∧ u.opens = 0) ∧
      NotsNegateAtoms ts := by
  constructor
  · intro h
    refine ⟨fun hkind => ?_, fun k u hu => ?_⟩
    · exact h 0 t rfl hkind
    · exact h (k + 1) u hu
  · rintro ⟨hfirst, hrest⟩ k u hu hkind
    cases k with
    | zero =>
      cases hu
      exact hfirst hkind
    | succ k => exact hrest k u hu hkind

/-- What is left of a span at depth `d`, after a `not` if `negating`. -/
structure SpanFrom (d : ℤ) (negating : Bool) (ts : List Token) : Prop where
  kinds : ∀ t ∈ ts, t.IsAtom ∨ t.kind = .unary .not ∨ t.kind = .binary .or
  enclosed : ∀ k < ts.length, 0 < d + depth (ts.take k)
  closed : d + depth ts = 0
  negations : NotsNegateAtoms ts
  pending : negating = true → ∃ u, ts[0]? = some u ∧ u.IsAtom ∧ u.opens = 0

theorem spanFrom_nil : SpanFrom d negating [] ↔ d = 0 ∧ negating = false := by
  constructor
  · intro h
    have hd : d = 0 := by simpa using h.closed
    refine ⟨hd, ?_⟩
    rw [Bool.eq_false_iff]
    intro hneg
    obtain ⟨u, hu, -⟩ := h.pending hneg
    simp at hu
  · rintro ⟨rfl, rfl⟩
    exact ⟨by simp, by simp, by simp, notsNegateAtoms_nil, by simp⟩

theorem spanFrom_cons : SpanFrom d negating (t :: ts) ↔
    0 < d ∧ (t.IsAtom ∨ t.kind = .unary .not ∨ t.kind = .binary .or) ∧
      (negating = true → t.IsAtom ∧ t.opens = 0) ∧
      SpanFrom (d + (t.opens - t.closes)) (t.kind = .unary .not) ts := by
  constructor
  · intro h
    obtain ⟨hkind, hkinds⟩ := List.forall_mem_cons.mp h.kinds
    obtain ⟨hnot, hnots⟩ := notsNegateAtoms_cons.mp h.negations
    have hpos : 0 < d := by simpa using h.enclosed 0 (by simp)
    have hatom : negating = true → t.IsAtom ∧ t.opens = 0 := by
      intro hneg
      obtain ⟨u, hu, hatom⟩ := h.pending hneg
      cases hu
      exact hatom
    have henclosed : ∀ k < ts.length, 0 < d + (t.opens - t.closes) + depth (ts.take k) := by
      intro k hk
      have := h.enclosed (k + 1) (by simpa using hk)
      rw [List.take_succ_cons, depth_cons] at this
      omega
    have hclosed : d + (t.opens - t.closes) + depth ts = 0 := by
      have := h.closed
      rw [depth_cons] at this
      omega
    refine ⟨hpos, hkind, hatom, hkinds, henclosed, hclosed, hnots, ?_⟩
    intro hneg
    exact hnot (of_decide_eq_true hneg)
  · rintro ⟨hpos, hkind, hatom, h⟩
    have henclosed : ∀ k < (t :: ts).length, 0 < d + depth ((t :: ts).take k) := by
      intro k hk
      cases k with
      | zero => simpa using hpos
      | succ k =>
        have := h.enclosed k (by simpa using hk)
        rw [List.take_succ_cons, depth_cons]
        omega
    have hclosed : d + depth (t :: ts) = 0 := by
      have := h.closed
      rw [depth_cons]
      omega
    have hnots : NotsNegateAtoms (t :: ts) :=
      notsNegateAtoms_cons.mpr ⟨fun hnot => h.pending (decide_eq_true hnot), h.negations⟩
    refine ⟨List.forall_mem_cons.mpr ⟨hkind, h.kinds⟩, henclosed, hclosed, hnots, ?_⟩
    intro hneg
    exact ⟨t, rfl, hatom hneg⟩

theorem spanFrom_zero : SpanFrom 0 false ts ↔ ts = [] := by
  cases ts with
  | nil => simp [spanFrom_nil]
  | cons t ts => simp [spanFrom_cons]

theorem SpanFrom.nonneg (h : SpanFrom d negating ts) : 0 ≤ d := by
  cases ts with
  | nil => exact (spanFrom_nil.mp h).1.ge
  | cons t ts => exact (spanFrom_cons.mp h).1.le

theorem isSpan_cons : IsSpan (t :: ts) ↔
    0 < t.opens ∧ (t.IsAtom ∨ t.kind = .unary .not ∨ t.kind = .binary .or) ∧
      SpanFrom (t.opens - t.closes) (t.kind = .unary .not) ts := by
  constructor
  · intro h
    obtain ⟨hkind, hkinds⟩ := List.forall_mem_cons.mp h.kinds
    obtain ⟨hnot, hnots⟩ := notsNegateAtoms_cons.mp h.negations
    have hopens : 0 < t.opens := by
      obtain ⟨u, hu, hopens⟩ := h.opened
      cases hu
      exact hopens
    have henclosed : ∀ k < ts.length, 0 < (t.opens - t.closes : ℤ) + depth (ts.take k) := by
      intro k hk
      have := h.enclosed (k + 1) k.succ_pos (by simpa using hk)
      rwa [List.take_succ_cons, depth_cons] at this
    have hclosed : (t.opens - t.closes : ℤ) + depth ts = 0 := by
      rw [← depth_cons]
      exact h.closed
    refine ⟨hopens, hkind, hkinds, henclosed, hclosed, hnots, ?_⟩
    intro hneg
    exact hnot (of_decide_eq_true hneg)
  · rintro ⟨hopens, hkind, h⟩
    have henclosed : ∀ k, 0 < k → k < (t :: ts).length → 0 < depth ((t :: ts).take k) := by
      intro k hpos hk
      obtain ⟨k, rfl⟩ := Nat.exists_eq_succ_of_ne_zero hpos.ne'
      rw [List.take_succ_cons, depth_cons]
      exact h.enclosed k (by simpa using hk)
    have hclosed : depth (t :: ts) = 0 := by
      rw [depth_cons]
      exact h.closed
    have hnots : NotsNegateAtoms (t :: ts) :=
      notsNegateAtoms_cons.mpr ⟨fun hnot => h.pending (decide_eq_true hnot), h.negations⟩
    exact ⟨List.forall_mem_cons.mpr ⟨hkind, h.kinds⟩, ⟨t, rfl, hopens⟩, henclosed, hclosed, hnots⟩

theorem isConjunct_cons_of_opens (hopens : t.opens ≠ 0) :
    IsConjunct (t :: ts) ↔ IsSpan (t :: ts) := by
  refine ⟨fun h => ?_, .span⟩
  cases h with
  | atom _ hbare => exact absurd hbare.1 hopens
  | negation _ hbare _ _ => exact absurd hbare.1 hopens
  | span h => exact h

theorem isConjunct_cons_of_bare (hopens : t.opens = 0) :
    IsConjunct (t :: ts) ↔ t.closes = 0 ∧ (t.IsAtom ∧ ts = [] ∨
      t.kind = .unary .not ∧ ∃ u, ts = [u] ∧ u.IsAtom ∧ u.Bare) := by
  constructor
  · intro h
    cases h with
    | atom hatom hbare => exact ⟨hbare.2, .inl ⟨hatom, rfl⟩⟩
    | negation hnot hbare hatom hbare' => exact ⟨hbare.2, .inr ⟨hnot, _, rfl, hatom, hbare'⟩⟩
    | span h => exact absurd hopens (isSpan_cons.mp h).1.ne'
  · rintro ⟨hcloses, ⟨hatom, rfl⟩ | ⟨hnot, u, rfl, hatom, hbare⟩⟩
    · exact .atom hatom ⟨hopens, hcloses⟩
    · exact .negation hnot ⟨hopens, hcloses⟩ hatom hbare

theorem not_isConjunct_nil : ¬ IsConjunct [] := by
  intro h
  cases h with
  | span h =>
    obtain ⟨t, ht, -⟩ := h.opened
    simp at ht

end Token

/-! ### Phases accept conjuncts -/

namespace Phase

open Token (SpanFrom spanFrom_nil spanFrom_cons spanFrom_zero IsConjunct literals clauseOf)

variable {t : Token} {ts : List Token} {depth : ℕ} {span : List Literal} {negating : Bool}
  {c : Clause}

theorem conjunct?_complete {c d : Clause} :
    (complete d).conjunct? ts = some c ↔ ts = [] ∧ c = d := by
  cases ts with
  | nil =>
    rw [conjunct?_nil, complete.injEq]
    simp [eq_comm]
  | cons t ts => simp [conjunct?_cons, next?]

/-- An atom adds its literal to the span, and its parentheses may end it. -/
theorem conjunct?_settle {l : Literal} {closes : ℕ}
    (ih : ∀ {depth : ℕ} {span : List Literal}, depth ≠ 0 →
      ((within depth span false).conjunct? ts = some c ↔
        SpanFrom depth false ts ∧ c = Clause.ofList (span ++ literals false ts))) :
    (settle depth (span ++ [l]) closes).bind (·.conjunct? ts) = some c ↔
      SpanFrom (depth - closes) false ts ∧ c = Clause.ofList (span ++ l :: literals false ts) := by
  unfold settle
  rcases Nat.lt_trichotomy closes depth with hlt | rfl | hgt
  · rw [if_pos hlt, Option.bind_some, ih (by omega), Nat.cast_sub hlt.le, List.append_assoc,
      List.singleton_append]
  · rw [if_neg (lt_irrefl _), if_pos rfl, Option.bind_some, conjunct?_complete, sub_self,
      spanFrom_zero]
    refine and_congr_right ?_
    rintro rfl
    rfl
  · rw [if_neg (by omega), if_neg (by omega), Option.bind_none]
    refine ⟨by simp, ?_⟩
    intro h
    have hnonneg := h.1.nonneg
    omega

/-- One token within a span, given how the tokens after it are read. -/
theorem conjunct?_cons_within (hdepth : depth + t.opens ≠ 0) (ht : t.Attached)
    (ih : ∀ {depth : ℕ} {span : List Literal} {negating : Bool}, depth ≠ 0 →
      ((within depth span negating).conjunct? ts = some c ↔
        SpanFrom depth negating ts ∧ c = Clause.ofList (span ++ literals negating ts))) :
    (within depth span negating).conjunct? (t :: ts) = some c ↔
      ((t.IsAtom ∨ t.kind = .unary .not ∨ t.kind = .binary .or) ∧
        (negating = true → t.IsAtom ∧ t.opens = 0) ∧
        SpanFrom (depth + (t.opens - t.closes)) (t.kind = .unary .not) ts) ∧
      c = Clause.ofList (span ++ literals negating (t :: ts)) := by
  rw [conjunct?_cons]
  by_cases hneg : negating = true → t.IsAtom ∧ t.opens = 0
  · rw [and_iff_right hneg]
    have hplain : ¬ t.IsAtom → negating = false := by
      intro hatom
      rw [Bool.eq_false_iff]
      intro hn
      exact hatom (hneg hn).1
    by_cases hkinds : t.IsAtom ∨ t.kind = .unary .not ∨ t.kind = .binary .or
    · rw [and_iff_right hkinds]
      obtain ⟨a, hkind⟩ | hkind | hkind := hkinds
      · rw [next?_atom hkind fun h => (hneg h).2, conjunct?_settle ih]
        simp [hkind, literals, add_sub_assoc]
      · rw [hplain (by simp [Token.IsAtom, hkind]), next?_not hkind, Option.bind_some, ih hdepth]
        simp [literals, hkind, ht.1 _ hkind]
      · rw [hplain (by simp [Token.IsAtom, hkind]), next?_or hkind hdepth, Option.bind_some,
          ih hdepth]
        simp [literals, hkind, ht.2 _ hkind]
    · rw [next?_eq_none_of_kind hkinds, Option.bind_none]
      exact ⟨by simp, fun h => absurd h.1.1 hkinds⟩
  · obtain ⟨hn, hother⟩ := Classical.not_imp.mp hneg
    subst hn
    have hnone : (within depth span true).next? t = none :=
      next?_eq_none_of_negating fun a ha hopens => hother ⟨⟨a, ha⟩, hopens⟩
    rw [hnone, Option.bind_none]
    exact ⟨by simp, fun h => absurd h.1.2.1 hneg⟩

theorem conjunct?_within (hdepth : depth ≠ 0) (hattached : ∀ t ∈ ts, t.Attached) :
    (within depth span negating).conjunct? ts = some c ↔
      SpanFrom depth negating ts ∧ c = Clause.ofList (span ++ literals negating ts) := by
  induction ts generalizing depth span negating with
  | nil => simp [conjunct?_nil, spanFrom_nil, hdepth]
  | cons t ts ih =>
    obtain ⟨ht, hts⟩ := List.forall_mem_cons.mp hattached
    have hpos : (0 : ℤ) < depth := by omega
    rw [conjunct?_cons_within (by omega) ht fun h => ih h hts, spanFrom_cons, and_iff_right hpos]

/-- A literal without parentheses is a conjunct as it stands. -/
theorem conjunct?_bare {l : Literal} {closes : ℕ} :
    (settle 0 [l] closes).bind (·.conjunct? ts) = some c ↔
      (closes = 0 ∧ ts = []) ∧ c = Clause.ofList [l] := by
  unfold settle
  rw [if_neg (Nat.not_lt_zero _)]
  split
  · next h => rw [Option.bind_some, conjunct?_complete, and_iff_right h]
  · next h => simp [h]

/-- After a `not` without parentheses only an atom without parentheses ends the conjunct. -/
theorem conjunct?_negation :
    (within 0 [] true).conjunct? ts = some c ↔
      (∃ u, ts = [u] ∧ u.IsAtom ∧ u.Bare) ∧ c = Clause.ofList (literals true ts) := by
  cases ts with
  | nil => simp [conjunct?_nil]
  | cons u ts =>
    rw [conjunct?_cons]
    by_cases hatom : ∃ a, u.kind = .atom a ∧ u.opens = 0
    · obtain ⟨a, hkind, hopens⟩ := hatom
      rw [next?_atom hkind fun _ => hopens, hopens, List.nil_append, conjunct?_bare]
      constructor
      · rintro ⟨⟨hcloses, rfl⟩, rfl⟩
        exact ⟨⟨u, rfl, ⟨a, hkind⟩, hopens, hcloses⟩, by simp [literals, hkind]⟩
      · rintro ⟨⟨v, hv, -, -, hcloses⟩, rfl⟩
        cases hv
        exact ⟨⟨hcloses, rfl⟩, by simp [literals, hkind]⟩
    · rw [next?_eq_none_of_negating fun a hkind hopens => hatom ⟨a, hkind, hopens⟩,
        Option.bind_none]
      refine ⟨by simp, ?_⟩
      rintro ⟨⟨v, hv, ⟨a, hkind⟩, hopens, -⟩, -⟩
      cases hv
      exact absurd ⟨a, hkind, hopens⟩ hatom

theorem conjunct?_begin_bare (hopens : t.opens = 0) (ht : t.Attached) :
    begin.conjunct? (t :: ts) = some c ↔ IsConjunct (t :: ts) ∧ c = clauseOf (t :: ts) := by
  rw [Token.isConjunct_cons_of_bare hopens, conjunct?_cons, begin]
  by_cases hkinds : t.IsAtom ∨ t.kind = .unary .not ∨ t.kind = .binary .or
  · obtain ⟨a, hkind⟩ | hkind | hkind := hkinds
    · rw [next?_atom hkind fun _ => hopens, hopens, List.nil_append, conjunct?_bare]
      simp only [Token.IsAtom, hkind, reduceCtorEq, false_and, or_false, Token.Kind.atom.injEq,
        exists_eq', true_and]
      refine and_congr_right ?_
      rintro ⟨-, rfl⟩
      simp [clauseOf, literals, hkind]
    · rw [next?_not hkind, hopens, Option.bind_some, conjunct?_negation]
      simp [Token.IsAtom, hkind, ht.1 _ hkind, clauseOf, literals]
    · simp [next?, hkind, hopens, Token.IsAtom]
  · rw [next?_eq_none_of_kind hkinds, Option.bind_none]
    refine ⟨by simp, ?_⟩
    rintro ⟨⟨-, ⟨hatom, -⟩ | ⟨hnot, -⟩⟩, -⟩
    · exact absurd (.inl hatom) hkinds
    · exact absurd (.inr (.inl hnot)) hkinds

/-- The phases accept the conjuncts, and make up their clauses. -/
theorem conjunct?_eq_some_iff (hattached : ∀ t ∈ ts, t.Attached) :
    begin.conjunct? ts = some c ↔ IsConjunct ts ∧ c = clauseOf ts := by
  cases ts with
  | nil => simp [conjunct?_nil, begin, Token.not_isConjunct_nil]
  | cons t ts =>
    obtain ⟨ht, hts⟩ := List.forall_mem_cons.mp hattached
    by_cases hopens : t.opens = 0
    · exact conjunct?_begin_bare hopens ht
    · rw [begin, conjunct?_cons_within (by omega) ht fun h => conjunct?_within h hts,
        Token.isConjunct_cons_of_opens hopens, Token.isSpan_cons]
      simp [Nat.pos_of_ne_zero hopens, clauseOf]

end Phase

/-! ### Whole formulas -/

open Token (IsConjunct IsConjunctive segments clauseOf)

theorem forall₂_conjunct? {segs : List (List Token)} {cs : List Clause}
    (hattached : ∀ seg ∈ segs, ∀ t ∈ seg, t.Attached) :
    List.Forall₂ (fun seg c => Phase.begin.conjunct? seg = some c) segs cs ↔
      (∀ seg ∈ segs, IsConjunct seg) ∧ cs = segs.map clauseOf := by
  induction segs generalizing cs with
  | nil => simp
  | cons seg segs ih =>
    obtain ⟨hseg, hsegs⟩ := List.forall_mem_cons.mp hattached
    cases cs with
    | nil => simp
    | cons c cs =>
      rw [List.forall₂_cons, Phase.conjunct?_eq_some_iff hseg, ih hsegs, List.forall_mem_cons,
        List.map_cons, List.cons.injEq]
      tauto

/-- A sequence of tokens is read as clauses exactly if it is a conjunction of conjuncts. -/
theorem clausesOfTokens_eq_ok_iff {ts : List Token} {s : ClauseSet}
    (hattached : ∀ t ∈ ts, t.Attached) :
    clausesOfTokens ts = .ok s ↔ IsConjunctive ts ∧ s = ⟨(segments ts).map clauseOf⟩ := by
  obtain ⟨seg, segs, hsplit⟩ := List.exists_cons_of_ne_nil (List.splitOnP_ne_nil Token.isAnd ts)
  have hsegments : segments ts = seg :: segs := hsplit
  have hpieces : ∀ piece ∈ segments ts, ∀ t ∈ piece, t.Attached := fun piece hpiece t ht =>
    hattached t (Token.mem_of_mem_segments hpiece ht)
  have hstart : ClauseReader.start = Phase.begin.reader [] := rfl
  rw [hsegments] at hpieces
  obtain ⟨hseg, hsegs⟩ := List.forall_mem_cons.mp hpieces
  rw [clausesOfTokens, hstart,
    Phase.finish_foldl_read Phase.sound_begin hattached hsplit]
  simp only [Phase.conjunct?_eq_some_iff hseg, forall₂_conjunct? hsegs]
  constructor
  · rintro ⟨hands, c, cs, ⟨hconj, rfl⟩, ⟨hconjs, rfl⟩, rfl⟩
    refine ⟨⟨fun t ht hand => ⟨hands t ht hand, ?_⟩, ?_⟩, ?_⟩
    · exact (hattached t ht).2 _ (Token.kind_eq_and_of_isAnd hand)
    · rw [hsegments]
      exact List.forall_mem_cons.mpr ⟨hconj, hconjs⟩
    · rw [hsegments]
      rfl
  · rintro ⟨⟨hands, hconjuncts⟩, rfl⟩
    rw [hsegments] at hconjuncts ⊢
    obtain ⟨hconj, hconjs⟩ := List.forall_mem_cons.mp hconjuncts
    exact ⟨fun t ht hand => (hands t ht hand).1, _, _, ⟨hconj, rfl⟩, ⟨hconjs, rfl⟩, rfl⟩

theorem clausesOfTokens_eq_ok_or_error (ts : List Token) :
    (∃ s, clausesOfTokens ts = .ok s) ∨
      ∃ faults, faults ≠ [] ∧ clausesOfTokens ts = .error faults := by
  unfold clausesOfTokens ClauseReader.finish
  split
  · exact .inl ⟨_, rfl⟩
  · next h => exact .inr ⟨_, h, rfl⟩

/-- A text is read as clauses exactly if its tokens are a conjunction of conjuncts: there is one
clause for each conjunct, in order, made up of its literals in order.  Any other text is answered
with at least one fault. -/
theorem clausesOfText_eq_ok_iff (text : List Char) :
    (∀ s, clausesOfText text = .ok s ↔
      IsConjunctive (Token.scan (stripOuterParens text)) ∧
        s = ⟨(segments (Token.scan (stripOuterParens text))).map clauseOf⟩) ∧
    ((∃ faults, faults ≠ [] ∧ clausesOfText text = .error faults) ↔
      ¬ IsConjunctive (Token.scan (stripOuterParens text))) := by
  have hread : ∀ s, clausesOfText text = .ok s ↔
      IsConjunctive (Token.scan (stripOuterParens text)) ∧
        s = ⟨(segments (Token.scan (stripOuterParens text))).map clauseOf⟩ := by
    intro s
    apply clausesOfTokens_eq_ok_iff
    intro t ht
    exact Token.attached_of_mem_scan ht
  refine ⟨hread, ?_, ?_⟩
  · rintro ⟨faults, -, herror⟩ hconjunctive
    have hok := (hread _).mpr ⟨hconjunctive, rfl⟩
    rw [herror] at hok
    cases hok
  · intro hnot
    obtain ⟨s, hs⟩ | hfaults := clausesOfTokens_eq_ok_or_error (Token.scan (stripOuterParens text))
    · exact absurd ((hread s).mp hs).1 hnot
    · exact hfaults

end Clausal
