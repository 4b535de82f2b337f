import Mathlib
import Clausal.Proofs.Formula.Conjunctive
import Clausal.Proofs.Formula.Spelling

/-! # Reading back spelled formulas

A conjunction of literals and clauses, spelled out and with any blanks around and between its
words, is accepted as a propositional formula, and its clauses are those that were spelled
(`Formula.spelling_round_trip`).  Its tokens are well formed because each part stands where an
operand is expected and leaves an atom behind (`Token.IsOperand`).  The removal of outer
parentheses does not disturb them, since the first token opens at most one
(`Token.scan_stripOuterParens_of_opens`). -/

namespace Clausal

open Text (isBlank)
open Token (SpanFrom IsSpan IsConjunct IsConjunctive spanFrom_nil spanFrom_cons isSpan_cons segments
  segments_single segments_join clauseOf)

variable {m n : ℕ} {d : ℤ} {ts us : List Token} {ls : List Literal} {cs : List Conjunct}

/-! ### Spelled clauses are spans -/

namespace Literal

theorem literals_tokens_append (l : Literal) (ts : List Token) :
    Token.literals false (l.tokens m n ++ ts) = l :: Token.literals false ts := by
  obtain ⟨a, negated⟩ := l
  cases negated <;> simp [tokens, Token.literals]

/-- A literal within a span opens and closes its parentheses. -/
theorem spanFrom_tokens_append (l : Literal) :
    SpanFrom d false (l.tokens m n ++ ts) ↔ 0 < d ∧ SpanFrom (d + (m - n)) false ts := by
  obtain ⟨a, negated⟩ := l
  cases negated with
  | false => simp [tokens, spanFrom_cons, Token.IsAtom]
  | true =>
    have hdepth : d + m + -(n : ℤ) = d + (m - n) := by omega
    simp only [tokens, if_true, List.cons_append, List.nil_append, spanFrom_cons, Token.IsAtom]
    simp [hdepth]
    omega

theorem isSpan_tokens_append (l : Literal) (hm : 0 < m) :
    IsSpan (l.tokens m n ++ ts) ↔ SpanFrom (m - n) false ts := by
  obtain ⟨a, negated⟩ := l
  have hdepth : (m : ℤ) + -(n : ℤ) = m - n := by omega
  cases negated <;> simp [tokens, isSpan_cons, spanFrom_cons, Token.IsAtom, hm, hdepth]

theorem isConjunct_tokens (l : Literal) : IsConjunct (l.tokens 0 0) := by
  obtain ⟨a, negated⟩ := l
  cases negated with
  | false => exact .atom ⟨a, rfl⟩ ⟨rfl, rfl⟩
  | true => exact .negation rfl ⟨rfl, rfl⟩ ⟨a, rfl⟩ ⟨rfl, rfl⟩

end Literal

theorem Token.spanFrom_or : SpanFrom d false (junctor .or :: ts) ↔ 0 < d ∧ SpanFrom d false ts := by
  simp [spanFrom_cons, junctor]

theorem literals_spanTokens (m n : ℕ) (hne : ls ≠ []) :
    Token.literals false (spanTokens m n ls) = ls := by
  induction ls, hne using List.recNeNil generalizing m with
  | singleton l =>
    have hsingle := l.literals_tokens_append (m := m) (n := n) []
    rwa [List.append_nil] at hsingle
  | cons l ls hls ih =>
    rw [spanTokens_cons m n l hls, l.literals_tokens_append]
    exact congrArg (l :: ·) (ih 0)

/-- The last literals of a clause, before which `n` parentheses are open. -/
theorem spanFrom_spanTokens (hn : 0 < n) (hne : ls ≠ []) :
    SpanFrom n false (spanTokens 0 n ls) := by
  induction ls, hne using List.recNeNil with
  | singleton l =>
    rw [spanTokens, ← List.append_nil (l.tokens 0 n), l.spanFrom_tokens_append, spanFrom_nil]
    exact ⟨by omega, by omega, rfl⟩
  | cons l ls hls ih =>
    rw [spanTokens_cons 0 n l hls, l.spanFrom_tokens_append, Token.spanFrom_or]
    simpa [hn] using ih

theorem isSpan_spanTokens (hn : 0 < n) (hne : ls ≠ []) : IsSpan (spanTokens n n ls) := by
  obtain ⟨l, ls, rfl⟩ := List.exists_cons_of_ne_nil hne
  by_cases hls : ls = []
  · rw [hls, spanTokens, ← List.append_nil (l.tokens n n), l.isSpan_tokens_append hn, spanFrom_nil]
    exact ⟨by omega, rfl⟩
  · have hrest : SpanFrom n false (spanTokens 0 n ls) := spanFrom_spanTokens hn hls
    rw [spanTokens_cons n n l hls, l.isSpan_tokens_append hn, Token.spanFrom_or]
    simpa [hn] using hrest

/-! ### Spelled conjunctions are conjunctive -/

namespace Conjunct

theorem isConjunct_tokens (c : Conjunct) : IsConjunct c.tokens := by
  cases c with
  | literal l => exact l.isConjunct_tokens
  | clause ls hne => exact .span (isSpan_spanTokens Nat.one_pos hne)

theorem clauseOf_tokens (c : Conjunct) : clauseOf c.tokens = Clause.ofList c.literals := by
  have hliterals : Token.literals false c.tokens = c.literals := by
    cases c with
    | literal l => exact literals_spanTokens 0 0 (List.cons_ne_nil l [])
    | clause ls hne => exact literals_spanTokens 1 1 hne
  rw [clauseOf, hliterals]

theorem isAnd_of_mem_tokens (c : Conjunct) : ∀ t ∈ c.tokens, t.isAnd = false := fun t ht =>
  Token.isAnd_eq_false_of_kind (c.isConjunct_tokens.kinds t ht)

/-- The conjuncts are the pieces between the `and`s. -/
theorem segments_conjoin (hne : cs ≠ []) : segments (conjoin cs) = cs.map tokens := by
  induction cs, hne using List.recNeNil with
  | singleton c => rw [conjoin_singleton, segments_single c.isAnd_of_mem_tokens, List.map_singleton]
  | cons c cs hcs ih =>
    rw [conjoin_cons c hcs, segments_join c.isAnd_of_mem_tokens (decide_eq_true rfl), ih,
      List.map_cons]

theorem bare_of_mem_conjoin (hne : cs ≠ []) :
    ∀ t ∈ conjoin cs, t.isAnd = true → t.Bare := by
  have hpiece : ∀ c : Conjunct, ∀ t ∈ c.tokens, t.isAnd = true → t.Bare := by
    intro c t ht hand
    rw [c.isAnd_of_mem_tokens t ht] at hand
    cases hand
  induction cs, hne using List.recNeNil with
  | singleton c =>
    rw [conjoin_singleton]
    exact hpiece c
  | cons c cs hcs ih =>
    rw [conjoin_cons c hcs, List.forall_mem_append, List.forall_mem_cons]
    exact ⟨hpiece c, fun _ => ⟨rfl, rfl⟩, ih⟩

theorem isConjunctive_conjoin (hne : cs ≠ []) : IsConjunctive (conjoin cs) := by
  refine ⟨bare_of_mem_conjoin hne, ?_⟩
  rw [segments_conjoin hne, List.forall_mem_map]
  exact fun c _ => c.isConjunct_tokens

end Conjunct

/-! ### Spelled conjunctions are well formed -/

namespace Token

/-- Tokens that may stand where an operand is expected: they have no fault there, and leave an
atom. -/
def IsOperand (ts : List Token) : Prop :=
  ∀ previous, (∀ a, previous ≠ some (.atom a)) →
    ∀ us, ∃ a, sequenceFaults previous (ts ++ us) = sequenceFaults (some (.atom a)) us

/-- Two operands with a connective between them. -/
theorem IsOperand.join (hts : IsOperand ts) (op : Binary) (hus : IsOperand us) :
    IsOperand (ts ++ junctor op :: us) := by
  intro previous hprevious rest
  obtain ⟨a, ha⟩ := hts previous hprevious (junctor op :: (us ++ rest))
  obtain ⟨b, hb⟩ := hus (some (.operator op.word)) (by simp) rest
  have hop : sequenceFaults (some (.atom a)) (junctor op :: (us ++ rest)) =
      sequenceFaults (some (.operator op.word)) (us ++ rest) := rfl
  refine ⟨b, ?_⟩
  rw [List.append_assoc, List.cons_append, ha, hop, hb]

theorem IsOperand.sequenceFaults_eq_nil (h : IsOperand ts) : sequenceFaults none ts = [] := by
  obtain ⟨a, ha⟩ := h none (by simp) []
  rw [List.append_nil] at ha
  exact ha

end Token

open Token (IsOperand)

theorem Literal.isOperand_tokens (m n : ℕ) (l : Literal) : IsOperand (l.tokens m n) := by
  intro previous hprevious us
  refine ⟨l.atom, ?_⟩
  unfold tokens
  cases previous with
  | none => split <;> rfl
  | some term =>
    cases term with
    | atom a => exact absurd rfl (hprevious a)
    | operator word => split <;> rfl

theorem isOperand_spanTokens (m n : ℕ) (hne : ls ≠ []) : IsOperand (spanTokens m n ls) := by
  induction ls, hne using List.recNeNil generalizing m with
  | singleton l => exact l.isOperand_tokens m n
  | cons l ls hls ih =>
    rw [spanTokens_cons m n l hls]
    exact (l.isOperand_tokens m 0).join .or (ih 0)

namespace Conjunct

theorem isOperand_tokens (c : Conjunct) : IsOperand c.tokens := by
  cases c with
  | literal l => exact l.isOperand_tokens 0 0
  | clause ls hne => exact isOperand_spanTokens 1 1 hne

theorem isOperand_conjoin (hne : cs ≠ []) : IsOperand (conjoin cs) := by
  induction cs, hne using List.recNeNil with
  | singleton c =>
    rw [conjoin_singleton]
    exact c.isOperand_tokens
  | cons c cs hcs ih =>
    rw [conjoin_cons c hcs]
    exact c.isOperand_tokens.join .and ih

theorem syntaxFaults_conjoin (hne : cs ≠ []) : syntaxFaults (conjoin cs) = [] := by
  rw [syntaxFaults, (isOperand_conjoin hne).sequenceFaults_eq_nil,
    (isConjunctive_conjoin hne).conjoined.parenFaults_eq_nil, List.append_nil]

end Conjunct

/-! ### Texts that are not stripped -/

namespace Token

/-- A text that begins with two parentheses has a first token that opens them. -/
theorem two_le_opens_scan (text : List Char) :
    ∃ t ts, scan ('(' :: '(' :: text) = t :: ts ∧ 2 ≤ t.opens := by
  have hleft : isBlank '(' = false := by decide
  obtain ⟨w, ws, -, hwords⟩ := Text.words_cons hleft text
  refine ⟨ofWord ('(' :: '(' :: w), _, by rw [scan, hwords '(' hleft, List.map_cons], ?_⟩
  have hbody := (List.dropWhile_sublist (l := w) (· = '(')).length_le
  show 2 ≤ w.length + 2 - (w.dropWhile (· = '(')).length
  omega

/-- Stripping leaves the words of a text whose first word does not open two parentheses. -/
theorem scan_stripOuterParens_of_opens {text : List Char}
    (h : ∀ t ∈ (scan text).head?, t.opens < 2) : scan (stripOuterParens text) = scan text := by
  have htrim : scan (Text.trim text) = scan text := by
    rw [scan, Text.words_trim, scan]
  rw [← htrim] at h ⊢
  rw [stripOuterParens]
  unfold peelParens
  split
  · next rest hrest =>
    obtain ⟨t, ts, hscan, hopens⟩ := two_le_opens_scan rest
    rw [hrest, hscan] at h
    exact absurd (h t rfl) (by omega)
  · rfl

end Token

theorem Literal.opens_head_tokens (l : Literal) {t : Token}
    (ht : t ∈ (l.tokens m n ++ ts).head?) : t.opens = m := by
  obtain ⟨a, negated⟩ := l
  cases negated <;>
  · cases ht
    rfl

theorem opens_head_spanTokens (hne : ls ≠ []) {t : Token}
    (ht : t ∈ (spanTokens m n ls ++ ts).head?) : t.opens = m := by
  obtain ⟨l, ls, rfl⟩ := List.exists_cons_of_ne_nil hne
  by_cases hls : ls = []
  · rw [hls] at ht
    exact l.opens_head_tokens ht
  · rw [spanTokens_cons m n l hls, List.append_assoc] at ht
    exact l.opens_head_tokens ht

/-- The first token of a conjunction opens at most one parenthesis. -/
theorem Conjunct.opens_head_conjoin (hne : cs ≠ []) : ∀ t ∈ (conjoin cs).head?, t.opens < 2 := by
  have hconjunct : ∀ (c : Conjunct) (us : List Token), ∀ t ∈ (c.tokens ++ us).head?,
      t.opens < 2 := by
    intro c us t ht
    cases c with
    | literal l =>
      rw [l.opens_head_tokens ht]
      exact Nat.two_pos
    | clause ls hls =>
      rw [opens_head_spanTokens hls ht]
      exact Nat.one_lt_two
  obtain ⟨c, cs, rfl⟩ := List.exists_cons_of_ne_nil hne
  by_cases hcs : cs = []
  · rw [hcs, conjoin_singleton, ← List.append_nil c.tokens]
    exact hconjunct c []
  · rw [conjoin_cons c hcs]
    exact hconjunct c _

/-! ### Whole texts -/

namespace Formula

variable {text : List Char}

/-- A text with the tokens of a conjunction is a propositional formula with its clauses. -/
theorem parse_of_scan_eq_conjoin (hne : cs ≠ []) (hscan : Token.scan text = Conjunct.conjoin cs) :
    ∃ f, parse text = .ok f ∧ f.isPropositional = true ∧
      f.toClauseSet = .ok ⟨cs.map fun c => Clause.ofList c.literals⟩ := by
  have hhead := Conjunct.opens_head_conjoin hne
  -- the text is stripped once as it is accepted and once more as its clauses are read
  have hfirst : Token.scan (stripOuterParens text) = Conjunct.conjoin cs := by
    rw [Token.scan_stripOuterParens_of_opens (by rwa [hscan]), hscan]
  have hsecond : Token.scan (stripOuterParens (stripOuterParens text)) = Conjunct.conjoin cs := by
    rw [Token.scan_stripOuterParens_of_opens (by rwa [hfirst]), hfirst]
  have hconjunctive : IsConjunctive (Token.scan (stripOuterParens (stripOuterParens text))) := by
    rw [hsecond]
    exact Conjunct.isConjunctive_conjoin hne
  have hclauses : (segments (Conjunct.conjoin cs)).map clauseOf =
      cs.map fun c => Clause.ofList c.literals := by
    rw [Conjunct.segments_conjoin hne, List.map_map]
    exact List.map_congr_left fun c _ => c.clauseOf_tokens
  refine ⟨⟨stripOuterParens text⟩, ?_, isPropositional_of_isConjunctive hconjunctive, ?_⟩
  · apply parse_of_syntaxFaults
    rw [hscan]
    exact Conjunct.syntaxFaults_conjoin hne
  · rw [toClauseSet_of_isConjunctive (f := ⟨stripOuterParens text⟩) hconjunctive, hsecond, hclauses]

/-- A spelled conjunction, with any blanks around it and between its words, is accepted as a
propositional formula, and its clauses are those of the conjuncts, in order. -/
theorem spelling_round_trip {conjuncts : List Conjunct} {text lead trail : List Char}
    (hne : conjuncts ≠ [])
    (htext : Text.Respaced (spellConjunction (conjuncts.map Conjunct.spell)) text)
    (hlead : ∀ c ∈ lead, isBlank c = true) (htrail : ∀ c ∈ trail, isBlank c = true) :
    ∃ f, parse (lead ++ text ++ trail) = .ok f ∧ f.isPropositional = true ∧
      f.toClauseSet = .ok ⟨conjuncts.map fun c => Clause.ofList c.literals⟩ := by
  have hwords : Token.scan (lead ++ text ++ trail) = Conjunct.conjoin conjuncts := by
    rw [← Conjunct.scan_spellConjunction hne, Token.scan, htext.words_eq hlead htrail, Token.scan]
  exact parse_of_scan_eq_conjoin hne hwords

/-- A clause with a repeated literal and a negated atom, with gaps of several blanks. -/
theorem spelling_round_trip_of_wide_gaps :
    let a : Atom := ⟨'A', by decide⟩
    let b : Atom := ⟨'B', by decide⟩
    let conjuncts : List Conjunct :=
      [.clause [⟨a, false⟩, ⟨b, true⟩, ⟨a, false⟩] (List.cons_ne_nil _ _), .literal ⟨b, true⟩]
    let text := "(A or not  B or A) \t\u3000and not B".toList
    conjuncts ≠ [] ∧ Text.Respaced (spellConjunction (conjuncts.map Conjunct.spell)) text ∧
      (∀ c ∈ ['\n'], isBlank c = true) ∧ (∀ c ∈ [' ', '\r'], isBlank c = true) ∧
      ∃ f, parse (['\n'] ++ text ++ [' ', '\r']) = .ok f ∧ f.isPropositional = true ∧
        f.toClauseSet = .ok ⟨[Clause.ofList [⟨a, false⟩, ⟨b, true⟩], Clause.unit ⟨b, true⟩]⟩ := by
  intro a b conjuncts text
  have hbase : spellConjunction (conjuncts.map Conjunct.spell) =
      "(A or not".toList ++ (' ' :: ("B or A)".toList ++ ' ' :: "and not B".toList)) := by
    decide
  have hsplit : text = "(A or not".toList ++ ([' ', ' '] ++ ("B or A)".toList ++
      ([' ', '\t', '\u3000'] ++ "and not B".toList))) := by
    decide
  have htail : Text.Respaced (' ' :: "and not B".toList)
      ([' ', '\t', '\u3000'] ++ "and not B".toList) :=
    .gap (by decide) (by simp) (by simp [isBlank]) (.refl _)
  have hmiddle : Text.Respaced (' ' :: ("B or A)".toList ++ ' ' :: "and not B".toList))
      ([' ', ' '] ++ ("B or A)".toList ++ ([' ', '\t', '\u3000'] ++ "and not B".toList))) :=
    .gap (by decide) (by simp) (by simp [isBlank]) ((Text.Respaced.refl _).append htail)
  have htext : Text.Respaced (spellConjunction (conjuncts.map Conjunct.spell)) text := by
    rw [hbase, hsplit]
    exact (Text.Respaced.refl _).append hmiddle
  have hlead : ∀ c ∈ ['\n'], isBlank c = true := by simp [isBlank]
  have htrail : ∀ c ∈ [' ', '\r'], isBlank c = true := by simp [isBlank]
  exact ⟨by simp [conjuncts], htext, hlead, htrail,
    spelling_round_trip (by simp [conjuncts]) htext hlead htrail⟩

end Formula
end Clausal
