import Mathlib
import Clausal.Formula
import Clausal.Proofs.Formula.Conjunct
import Clausal.Proofs.Formula.Meaning

/-! # Clauses keep the meaning

The tokens of a conjunction of conjuncts spell out a flat formula
(`Token.Conjoined.tidy`), and the literals of the conjuncts are those between its `and`s.  So
the clauses that are read off a formula hold exactly if the formula does, however its parentheses
are nested (`Formula.satisfies_toClauseSet_iff`). -/

namespace Clausal

/-! ### The symbols of tokens -/

namespace Token

variable {t : Token} {ts : List Token} {ws : List Symbol} {d e : ℤ} {negated negating : Bool}

/-- The symbols of an atom or a connective with its parentheses. -/
def symbols (t : Token) : List Symbol :=
  List.replicate t.opens Symbol.left ++
    Symbol.word t.kind.word :: List.replicate t.closes Symbol.right

theorem symbols_ofWord {w : List Char} (h : (ofWord w).IsTerm) :
    Symbol.ofWord w = (ofWord w).symbols := by
  have hword := word_ofWord h
  have hcore : core w ≠ [] := by
    intro hempty
    apply h.1
    show kindOf (w.dropWhile (· = '(')) (core w) = .parens
    rw [hempty]
    rfl
  show List.replicate (ofWord w).opens Symbol.left ++
    ((if core w = [] then [] else [Symbol.word (core w)]) ++
      List.replicate (ofWord w).closes Symbol.right) = _
  rw [if_neg hcore, symbols, hword, List.singleton_append]

theorem scan_eq_flatMap_symbols {text : List Char} (h : ∀ t ∈ scan text, t.IsTerm) :
    Symbol.scan text = (scan text).flatMap symbols := by
  unfold Symbol.scan
  rw [scan, List.flatMap_map]
  apply List.flatMap_congr
  intro w hw
  exact symbols_ofWord (h _ (List.mem_map_of_mem hw))

/-- The symbol between the parentheses of a token. -/
theorem word_of_isAtom (h : t.IsAtom) : ∃ a, Symbol.word t.kind.word = .atom a := by
  obtain ⟨a, hkind⟩ := h
  exact ⟨a, by rw [hkind]; rfl⟩

theorem symbols_of_bare (h : t.Bare) : t.symbols = [.word t.kind.word] := by
  rw [symbols, h.1, h.2]
  rfl

/-! ### Literals of tokens and symbols -/

theorem literals_replicate {x : Symbol} (hx : ∀ w, x ≠ .word w) (n : ℕ) (ws : List Symbol) :
    Symbol.literals negated (List.replicate n x ++ ws) = Symbol.literals negated ws := by
  induction n with
  | zero => rfl
  | succ n ih =>
    cases x with
    | left => exact ih
    | right => exact ih
    | word w => exact absurd rfl (hx w)

/-- Parentheses do not matter to the literals. -/
theorem literals_append_symbols (t : Token) (ws : List Symbol) :
    Symbol.literals negated (t.symbols ++ ws) =
      Symbol.literals negated (.word t.kind.word :: ws) := by
  have hleft : ∀ w, Symbol.left ≠ .word w := by simp
  have hright : ∀ w, Symbol.right ≠ .word w := by simp
  rw [symbols, List.append_assoc, literals_replicate hleft, List.cons_append]
  simp only [Symbol.literals, literals_replicate hright]

theorem literals_flatMap_symbols (h : ∀ t ∈ ts, t.IsTerm) :
    Symbol.literals negated (ts.flatMap symbols) = literals negated ts := by
  induction ts generalizing negated with
  | nil => rfl
  | cons t ts ih =>
    obtain ⟨ht, hts⟩ := List.forall_mem_cons.mp h
    rw [List.flatMap_cons, literals_append_symbols]
    cases hkind : t.kind with
    | atom a =>
      have hliterals : literals negated (t :: ts) = ⟨a, negated⟩ :: literals false ts := by
        simp only [literals, hkind]
      rw [hliterals, ← ih hts]
      exact Symbol.literals_atom negated a _
    | unary op =>
      have hlength : op.word.length ≠ 1 := by cases op <;> decide
      have hnot : decide (op.word = Unary.not.word) = decide (Kind.unary op = .unary .not) := by
        cases op <;> decide
      have hliterals : literals negated (t :: ts) = literals (Kind.unary op = .unary .not) ts := by
        simp only [literals, hkind]
      rw [hliterals, ← ih hts, ← hnot]
      exact Symbol.literals_word hlength negated _
    | binary op =>
      have hlength : op.word.length ≠ 1 := by cases op <;> decide
      have hnot : decide (op.word = Unary.not.word) = false := by cases op <;> decide
      have hliterals : literals negated (t :: ts) = literals false ts := by
        simp only [literals, hkind, reduceCtorEq, decide_false]
      rw [hliterals, ← ih hts, ← hnot]
      exact Symbol.literals_word hlength negated _
    | unknown w => exact absurd hkind (ht.2 w)
    | parens => exact absurd hkind ht.1

/-! ### The symbols of conjuncts are flat -/

/-- The symbols close all parentheses, and each is in its place. -/
def Tidy (d : ℤ) (ws : List Symbol) : Prop := Symbol.Closes d ws ∧ Symbol.Flat d ws

theorem tidy_nil : Tidy 0 [] := ⟨Symbol.closes_nil.mpr rfl, Symbol.flat_nil⟩

theorem tidy_cons {x : Symbol} (hd : 0 ≤ d) (hx : Symbol.InPlace d x ws)
    (h : Tidy (d + x.rise) ws) : Tidy d (x :: ws) :=
  ⟨Symbol.closes_cons.mpr ⟨hd, h.1⟩, Symbol.flat_cons.mpr ⟨hx, h.2⟩⟩

theorem Tidy.nonneg (h : Tidy d ws) : 0 ≤ d := h.1.depth_nonneg

theorem tidy_replicate_left {n : ℕ} (hd : 0 ≤ d) (h : Tidy (d + n) ws) :
    Tidy d (List.replicate n Symbol.left ++ ws) := by
  induction n generalizing d with
  | zero => simpa using h
  | succ n ih =>
    have hpos : 0 ≤ d + 1 := by omega
    have hinner : d + (n + 1 : ℕ) = d + 1 + n := by omega
    rw [hinner] at h
    exact tidy_cons hd .left (ih hpos h)

theorem tidy_replicate_right {n : ℕ} (h : Tidy d ws) :
    Tidy (d + n) (List.replicate n Symbol.right ++ ws) := by
  have hd := h.nonneg
  induction n with
  | zero => simpa using h
  | succ n ih =>
    have houter : d + n = d + (n + 1 : ℕ) + Symbol.right.rise := by
      show d + (n : ℤ) = d + (n + 1 : ℕ) + -1
      omega
    rw [houter] at ih
    exact tidy_cons (by omega) .right ih

/-- A token whose word is in its place. -/
theorem tidy_append_symbols (hd : 0 ≤ d)
    (hword : Symbol.InPlace (d + t.opens) (.word t.kind.word)
      (List.replicate t.closes Symbol.right ++ ws))
    (h : Tidy (d + (t.opens - t.closes)) ws) : Tidy d (t.symbols ++ ws) := by
  have hclosed : Tidy (d + t.opens) (List.replicate t.closes Symbol.right ++ ws) := by
    have houter : d + (t.opens - t.closes) + t.closes = d + t.opens := by omega
    rw [← houter]
    exact tidy_replicate_right h
  rw [symbols, List.append_assoc]
  refine tidy_replicate_left hd (tidy_cons (by omega) hword ?_)
  rwa [Symbol.rise, add_zero]

/-- A token of a conjunct is in its place, before the rest of the conjunct. -/
theorem inPlace_of_kind (ht : t.Attached)
    (hkind : t.IsAtom ∨ t.kind = .unary .not ∨ t.kind = .binary .or)
    (hrest : SpanFrom e (t.kind = .unary .not) ts) (hd : 0 < d) :
    Symbol.InPlace d (.word t.kind.word)
      (List.replicate t.closes Symbol.right ++ ts.flatMap symbols) := by
  obtain hatom | hkind | hkind := hkind
  · obtain ⟨a, ha⟩ := word_of_isAtom hatom
    rw [ha]
    exact .atom a
  · obtain ⟨u, hu, hatom, hopens⟩ := hrest.pending (decide_eq_true hkind)
    obtain ⟨a, ha⟩ := word_of_isAtom hatom
    cases ts with
    | nil => cases hu
    | cons v ts =>
      obtain rfl : v = u := Option.some.inj hu
      have hnext : (v :: ts).flatMap symbols =
          Symbol.atom a :: (List.replicate v.closes Symbol.right ++ ts.flatMap symbols) := by
        rw [List.flatMap_cons, symbols, hopens, ha]
        rfl
      rw [ht.1 _ hkind, hnext, hkind]
      exact .not a
  · rw [hkind]
    exact .or hd

theorem SpanFrom.tidy (h : SpanFrom d negating ts) (hattached : ∀ t ∈ ts, t.Attached) :
    Tidy d (ts.flatMap symbols) := by
  induction ts generalizing d negating with
  | nil =>
    obtain ⟨rfl, -⟩ := spanFrom_nil.mp h
    exact tidy_nil
  | cons t ts ih =>
    obtain ⟨ht, hts⟩ := List.forall_mem_cons.mp hattached
    obtain ⟨hd, hkind, -, hrest⟩ := spanFrom_cons.mp h
    exact tidy_append_symbols hd.le (inPlace_of_kind ht hkind hrest (by omega)) (ih hrest hts)

theorem IsSpan.tidy (h : IsSpan ts) (hattached : ∀ t ∈ ts, t.Attached) :
    Tidy 0 (ts.flatMap symbols) := by
  cases ts with
  | nil =>
    obtain ⟨t, ht, -⟩ := h.opened
    simp at ht
  | cons t ts =>
    obtain ⟨ht, hts⟩ := List.forall_mem_cons.mp hattached
    obtain ⟨hopens, hkind, hrest⟩ := isSpan_cons.mp h
    have hinner : Tidy (0 + (t.opens - t.closes)) (ts.flatMap symbols) := by
      rw [zero_add]
      exact hrest.tidy hts
    exact tidy_append_symbols le_rfl (inPlace_of_kind ht hkind hrest (by omega)) hinner

theorem IsConjunct.tidy (h : IsConjunct ts) (hattached : ∀ t ∈ ts, t.Attached) :
    Tidy 0 (ts.flatMap symbols) := by
  cases h with
  | atom hatom hbare =>
    obtain ⟨a, ha⟩ := word_of_isAtom hatom
    rw [List.flatMap_singleton, symbols_of_bare hbare, ha]
    exact tidy_cons le_rfl (.atom a) tidy_nil
  | negation hnot hbare hatom hbare' =>
    obtain ⟨a, ha⟩ := word_of_isAtom hatom
    rw [List.flatMap_cons, List.flatMap_singleton, symbols_of_bare hbare, symbols_of_bare hbare',
      ha, hnot]
    exact tidy_cons le_rfl (.not a) (tidy_cons le_rfl (.atom a) tidy_nil)
  | span h => exact h.tidy hattached

/-! ### Conjunctions of conjuncts -/

theorem isAnd_eq_false_of_kind
    (hkind : t.IsAtom ∨ t.kind = .unary .not ∨ t.kind = .binary .or) : t.isAnd = false := by
  obtain ⟨a, hkind⟩ | hkind | hkind := hkind <;> simp [isAnd, hkind]

theorem isTerm_of_kind
    (hkind : t.IsAtom ∨ t.kind = .unary .not ∨ t.kind = .binary .or) : t.IsTerm := by
  obtain ⟨a, hkind⟩ | hkind | hkind := hkind <;> simp [IsTerm, hkind]

theorem IsConjunct.kinds (h : IsConjunct ts) :
    ∀ t ∈ ts, t.IsAtom ∨ t.kind = .unary .not ∨ t.kind = .binary .or := by
  cases h with
  | atom hatom _ => simp [hatom]
  | negation hnot _ hatom _ => simp [hnot, hatom]
  | span h => exact h.kinds

/-- A conjunct alone, or before an `and` without parentheses and further conjuncts. -/
inductive Conjoined : List Token → Prop
  | single {seg : List Token} : IsConjunct seg → Conjoined seg
  | join {seg ts : List Token} {t : Token} :
    IsConjunct seg → t.isAnd = true → t.Bare → Conjoined ts → Conjoined (seg ++ t :: ts)

theorem IsConjunctive.conjoined (h : IsConjunctive ts) : Conjoined ts := by
  induction ts using segments_induction with
  | single seg hseg =>
    have hconjuncts := h.conjuncts
    rw [segments_single hseg, List.forall_mem_singleton] at hconjuncts
    exact .single hconjuncts
  | join seg t ts hseg hand ih =>
    have hconjuncts := h.conjuncts
    rw [segments_join hseg hand, List.forall_mem_cons] at hconjuncts
    have hrest : IsConjunctive ts := by
      refine ⟨fun u hu => ?_, hconjuncts.2⟩
      exact h.ands u (List.mem_append_right _ (List.mem_cons_of_mem t hu))
    exact .join hconjuncts.1 hand (h.ands t (by simp) hand) (ih hrest)

theorem Conjoined.isTerm (h : Conjoined ts) : ∀ t ∈ ts, t.IsTerm := by
  induction h with
  | single hseg => exact fun t ht => isTerm_of_kind (hseg.kinds t ht)
  | join hseg hand _ _ ih =>
    refine List.forall_mem_append.mpr ⟨fun t ht => isTerm_of_kind (hseg.kinds t ht), ?_⟩
    exact List.forall_mem_cons.mpr ⟨by simp [IsTerm, kind_eq_and_of_isAnd hand], ih⟩

theorem symbols_of_isAnd (hand : t.isAnd = true) (hbare : t.Bare) :
    t.symbols = [.junctor .and] := by
  rw [symbols_of_bare hbare, kind_eq_and_of_isAnd hand]
  rfl

/-- Tidy symbols before an `and` and after it. -/
theorem Tidy.join {us : List Symbol} (hus : Tidy d us) (hws : Tidy 0 ws) :
    Tidy d (us ++ Symbol.junctor .and :: ws) := by
  have hand : Tidy 0 (.junctor .and :: ws) := tidy_cons le_rfl .and hws
  have hcloses : Symbol.Closes (d + 0) (us ++ Symbol.junctor .and :: ws) := hus.1.append hand.1
  rw [add_zero] at hcloses
  refine ⟨hcloses, hus.2.append ?_⟩
  rw [hus.1.closed]
  exact hand.2

/-- A conjunction of conjuncts is a flat formula. -/
theorem Conjoined.tidy (h : Conjoined ts) (hattached : ∀ t ∈ ts, t.Attached) :
    Tidy 0 (ts.flatMap symbols) := by
  induction h with
  | single hseg => exact hseg.tidy hattached
  | join hseg hand hbare _ ih =>
    obtain ⟨hleft, hright⟩ := List.forall_mem_append.mp hattached
    rw [List.flatMap_append, List.flatMap_cons, symbols_of_isAnd hand hbare]
    exact (hseg.tidy hleft).join (ih (List.forall_mem_cons.mp hright).2)

theorem isAnd_of_mem_symbols (hterm : t.IsTerm) (hand : t.isAnd = false) {x : Symbol}
    (hx : x ∈ t.symbols) : x.isAnd = false := by
  obtain hx | hx := List.mem_append.mp hx
  · rw [List.eq_of_mem_replicate hx]
    rfl
  obtain rfl | hx := List.mem_cons.mp hx
  · refine decide_eq_false fun hx => ?_
    cases hkind : t.kind with
    | atom a =>
      rw [hkind] at hx
      exact Symbol.atom_ne_junctor a .and hx
    | unary op =>
      rw [hkind] at hx
      have hword : op.word = Binary.and.word := Symbol.word.inj hx
      cases op <;> exact absurd hword (by decide)
    | binary op =>
      rw [hkind] at hx
      have hword : op.word = Binary.and.word := Symbol.word.inj hx
      have hop : Binary.ofWord? op.word = some .and := Binary.ofWord?_eq_some_iff.mpr hword.symm
      rw [Binary.ofWord?_eq_some_iff.mpr rfl, Option.some.injEq] at hop
      rw [isAnd, hkind, hop] at hand
      exact absurd hand (by decide)
    | unknown w => exact hterm.2 w hkind
    | parens => exact hterm.1 hkind
  · rw [List.eq_of_mem_replicate hx]
    rfl

/-- The pieces between the `and`s of a conjunction are the symbols of its conjuncts. -/
theorem Conjoined.splitOnP_symbols (h : Conjoined ts) :
    (ts.flatMap symbols).splitOnP Symbol.isAnd = (segments ts).map (·.flatMap symbols) := by
  have hpiece : ∀ seg, IsConjunct seg → ∀ x ∈ seg.flatMap symbols, x.isAnd = false := by
    intro seg hseg x hx
    obtain ⟨t, ht, hx⟩ := List.mem_flatMap.mp hx
    have hkind := hseg.kinds t ht
    exact isAnd_of_mem_symbols (isTerm_of_kind hkind) (isAnd_eq_false_of_kind hkind) hx
  have hands : ∀ seg, IsConjunct seg → ∀ t ∈ seg, t.isAnd = false := fun seg hseg t ht =>
    isAnd_eq_false_of_kind (hseg.kinds t ht)
  induction h with
  | @single seg hseg =>
    rw [List.splitOnP_eq_singleton (hpiece seg hseg), segments_single (hands seg hseg)]
    rfl
  | @join seg ts t hseg hand hbare _ ih =>
    rw [List.flatMap_append, List.flatMap_cons, symbols_of_isAnd hand hbare,
      List.singleton_append,
      List.splitOnP_append_cons_of_forall_mem (hpiece seg hseg) _ (decide_eq_true rfl), ih,
      segments_join (hands seg hseg) hand, List.map_cons]

/-- The clauses of the conjuncts hold exactly if every piece between `and`s has a true literal. -/
theorem Conjoined.satisfies_iff {i : Interpretation} (h : Conjoined ts) :
    i.satisfies ⟨(segments ts).map clauseOf⟩ = true ↔ Symbol.AllTrue i (ts.flatMap symbols) := by
  rw [Interpretation.satisfies_iff, Symbol.AllTrue, h.splitOnP_symbols]
  show (∀ c ∈ (segments ts).map clauseOf, _) ↔ _
  rw [List.forall_mem_map, List.forall_mem_map]
  refine forall₂_congr fun seg hseg => ?_
  have hterms : ∀ t ∈ seg, t.IsTerm := fun t ht => h.isTerm t (mem_of_mem_segments hseg ht)
  rw [Interpretation.satisfiesClause_iff, Symbol.SomeTrue, literals_flatMap_symbols hterms]
  simp [clauseOf]

end Token

/-! ### Whole texts -/

/-- The symbols of a text with clauses are flat. -/
theorem flat_of_clausesOfText {text : List Char} {s : ClauseSet} (h : clausesOfText text = .ok s) :
    Symbol.Flat 0 (Symbol.scan (stripOuterParens text)) := by
  have hattached : ∀ t ∈ Token.scan (stripOuterParens text), t.Attached := fun t ht =>
    Token.attached_of_mem_scan ht
  have hconjoined := ((clausesOfTokens_eq_ok_iff hattached).mp h).1.conjoined
  rw [Token.scan_eq_flatMap_symbols hconjoined.isTerm]
  exact (hconjoined.tidy hattached).2

theorem Formula.text_of_parse {text : List Char} {f : Formula} (h : Formula.parse text = .ok f) :
    f.text = stripOuterParens text := by
  unfold Formula.parse at h
  split at h
  · cases h
  · cases h
    rfl
  · cases h

theorem Formula.clausesOfText_of_toClauseSet {f : Formula} {s : ClauseSet}
    (h : f.toClauseSet = .ok s) : clausesOfText f.text = .ok s := by
  unfold Formula.toClauseSet at h
  split at h
  · cases h
  · cases h
  · next s' hreading =>
    cases h
    unfold Formula.reading Formula.requireFragment at hreading
    split at hreading
    · exact Except.ok.inj hreading
    · cases hreading

/-- The clauses of an accepted text hold exactly if the formula does that the text spells, under
every interpretation that gives a value to the atoms of the text. -/
theorem Formula.satisfies_toClauseSet_iff {text : List Char} {f : Formula} {s : ClauseSet}
    {n : ℕ} {e : Expr} {i : Interpretation} (hreads : Reads n (Symbol.scan text) e)
    (hparse : Formula.parse text = .ok f) (hclauses : f.toClauseSet = .ok s)
    (htotal : ∀ a, Symbol.atom a ∈ Symbol.scan text → (i.get? a).isSome = true) :
    i.satisfies s = true ↔ e.eval i = true := by
  have htext : f.text = stripOuterParens text := Formula.text_of_parse hparse
  have hread : clausesOfText f.text = .ok s := Formula.clausesOfText_of_toClauseSet hclauses
  have hattached : ∀ t ∈ Token.scan (stripOuterParens f.text), t.Attached := fun t ht =>
    Token.attached_of_mem_scan ht
  obtain ⟨hconjunctive, rfl⟩ := (clausesOfTokens_eq_ok_iff hattached).mp hread
  have hconjoined := hconjunctive.conjoined
  have hsymbols := Token.scan_eq_flatMap_symbols hconjoined.isTerm
  have htidy := hconjoined.tidy hattached
  rw [hconjoined.satisfies_iff]
  rw [← hsymbols] at htidy ⊢
  -- the text is stripped once as it is accepted and once more as its clauses are read
  obtain ⟨k₁, hk₁⟩ := Symbol.scan_stripOuterParens text
  obtain ⟨k₂, hk₂⟩ := Symbol.scan_stripOuterParens f.text
  rw [← htext] at hk₁
  have hwraps := hk₁.trans hk₂
  obtain ⟨m, hinner⟩ := hreads.of_wraps hwraps htidy.1
  refine (hinner.eval_iff htidy.2 le_rfl fun a ha => htotal a ?_).symm
  rw [hwraps]
  exact List.mem_append_right _ (List.mem_append_left _ ha)

/-- A text in redundant parentheses, under an interpretation that makes its formula true. -/
theorem Formula.satisfies_of_wrapped_text :
    let a : Atom := ⟨'A', by decide⟩
    let b : Atom := ⟨'B', by decide⟩
    let i : Interpretation := ⟨[(a, false), (b, false)], by decide⟩
    let text := "((A or not B) and not A)".toList
    ∃ f s e, Reads 0 (Symbol.scan text) e ∧ Formula.parse text = .ok f ∧ f.toClauseSet = .ok s ∧
      (∀ x, Symbol.atom x ∈ Symbol.scan text → (i.get? x).isSome = true) ∧
      e.eval i = true ∧ i.satisfies s = true := by
  intro a b i text
  have hleft := Reads.binary .or (.weaken (.atom a) zero_le_two)
    (.weaken (.not (.atom b)) zero_le_two)
  have hformula := Reads.binary .and (.weaken hleft.paren zero_le_one)
    (.weaken (.not (.atom a)) zero_le_one)
  have hreads : Reads 0 (Symbol.scan text)
      (.binary .and (.binary .or (.atom a) (.not (.atom b))) (.not (.atom a))) := by
    convert hformula.paren using 1
    decide +kernel
  have hparse : Formula.parse text = .ok ⟨"(A or not B) and not A".toList⟩ := by decide +kernel
  have hclauses : Formula.toClauseSet ⟨"(A or not B) and not A".toList⟩ =
      .ok ⟨[Clause.ofList [⟨a, false⟩, ⟨b, true⟩], Clause.unit ⟨a, true⟩]⟩ := by
    decide +kernel
  have hsymbols : ∀ x ∈ Symbol.scan text, x = .atom a ∨ x = .atom b ∨
      x ∈ [.left, .right, .not, .junctor .or, .junctor .and] := by
    decide +kernel
  have htotal : ∀ x, Symbol.atom x ∈ Symbol.scan text → (i.get? x).isSome = true := by
    intro x hx
    obtain ha | hb | hother := hsymbols _ hx
    · rw [Symbol.atom_inj ha]
      decide
    · rw [Symbol.atom_inj hb]
      decide
    · simp [Symbol.atom_ne_left, Symbol.atom_ne_right, Symbol.atom_ne_not,
        Symbol.atom_ne_junctor] at hother
  refine ⟨_, _, _, hreads, hparse, hclauses, htotal, by decide, ?_⟩
  exact (Formula.satisfies_toClauseSet_iff hreads hparse hclauses htotal).mpr (by decide)

end Clausal
