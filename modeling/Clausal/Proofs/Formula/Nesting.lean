import Mathlib
import Clausal.Proofs.Formula.OuterParens
import Clausal.Proofs.Formula.RoundTrip

/-! # Groups within groups

A clause may be grouped by further parentheses in any way, and its tokens are one span all the same
(`Disjunct.isConjunct_tokens`).  But outer parentheses are stripped before, those of the whole
disjunction and, whether they match each other or not, further ones.  So a disjunction is one clause
exactly if a group that comes first in another is all of it.  Otherwise the stripping leaves an `or`
outside all parentheses (`Disjunct.not_flat_of_wraps`), and what is left is no conjunction of
clauses (`Disjunct.clausesOfText_spell`). -/

namespace Clausal

open Token (SpanFrom IsSpan IsConjunct IsConjunctive segments segments_single clauseOf)

/-! ### Trees of disjuncts -/

mutual

/-- A disjunct to be spelled: a literal as it stands, or a group in parentheses. -/
inductive Disjunct where
  | literal (l : Literal)
  | group (members : Disjuncts)

/-- The members of a group, at least one. -/
inductive Disjuncts where
  | last (d : Disjunct)
  | or (d : Disjunct) (rest : Disjuncts)

end

mutual

/-- The literals of a disjunct, from left to right. -/
def Disjunct.literals : Disjunct → List Literal
  | .literal l => [l]
  | .group members => members.literals

/-- The literals of all members. -/
def Disjuncts.literals : Disjuncts → List Literal
  | .last d => d.literals
  | .or d rest => d.literals ++ rest.literals

end

mutual

/-- The spelling of a disjunct. -/
def Disjunct.spell : Disjunct → List Char
  | .literal l => l.spell
  | .group members => '(' :: (members.spell ++ [')'])

/-- The spelling of the members, with an `or` between any two. -/
def Disjuncts.spell : Disjuncts → List Char
  | .last d => d.spell
  | .or d rest => d.spell ++ (" or ".toList ++ rest.spell)

end

mutual

/-- Whether the disjunct begins with a literal, once groups around a single group are taken away. -/
def Disjunct.literalFirst : Disjunct → Bool
  | .literal _ => true
  | .group members => members.literalFirst

/-- Whether the first member is a literal, or is alone and begins with one. -/
def Disjuncts.literalFirst : Disjuncts → Bool
  | .last d => d.literalFirst
  | .or (.literal _) _ => true
  | .or (.group _) _ => false

end

mutual

/-- The tokens of a disjunct with `m` more parentheses before it and `n` behind it. -/
def Disjunct.tokens (m n : ℕ) : Disjunct → List Token
  | .literal l => l.tokens m n
  | .group members => members.tokens (m + 1) (n + 1)

/-- The tokens of the members. -/
def Disjuncts.tokens (m n : ℕ) : Disjuncts → List Token
  | .last d => d.tokens m n
  | .or d rest => d.tokens m 0 ++ Token.junctor .or :: rest.tokens 0 n

end

/-! ### The tokens of a disjunct -/

mutual

theorem Disjunct.scan_spell (m n : ℕ) : ∀ d : Disjunct,
    Token.scan (List.replicate m '(' ++ d.spell ++ List.replicate n ')') = d.tokens m n
  | .literal l => by
    rw [Disjunct.spell, Disjunct.tokens, l.scan_spell]
  | .group members => by
    have hcut : List.replicate m '(' ++ (Disjunct.group members).spell ++ List.replicate n ')' =
        List.replicate (m + 1) '(' ++ members.spell ++ List.replicate (n + 1) ')' := by
      rw [Disjunct.spell, List.replicate_succ', List.replicate_succ (n := n)]
      simp only [List.append_assoc, List.cons_append, List.nil_append]
    rw [hcut, members.scan_spell, Disjunct.tokens]

theorem Disjuncts.scan_spell (m n : ℕ) : ∀ ds : Disjuncts,
    Token.scan (List.replicate m '(' ++ ds.spell ++ List.replicate n ')') = ds.tokens m n
  | .last d => by
    rw [Disjuncts.spell, Disjuncts.tokens, d.scan_spell]
  | .or d rest => by
    have hor : " or ".toList = ' ' :: (Binary.or.word ++ [' ']) := by decide
    have hcut : List.replicate m '(' ++ (Disjuncts.or d rest).spell ++ List.replicate n ')' =
        (List.replicate m '(' ++ d.spell ++ List.replicate 0 ')') ++
          (' ' :: (Binary.or.word ++ [' ']) ++
            (List.replicate 0 '(' ++ rest.spell ++ List.replicate n ')')) := by
      simp only [Disjuncts.spell, hor, List.replicate_zero, List.append_assoc, List.nil_append,
        List.append_nil]
    rw [hcut, Token.scan_join, d.scan_spell, rest.scan_spell, Disjuncts.tokens]

end

mutual

theorem Disjunct.literals_tokens_append (m n : ℕ) (ts : List Token) : ∀ d : Disjunct,
    Token.literals false (d.tokens m n ++ ts) = d.literals ++ Token.literals false ts
  | .literal l => l.literals_tokens_append ts
  | .group members => members.literals_tokens_append (m + 1) (n + 1) ts

theorem Disjuncts.literals_tokens_append (m n : ℕ) (ts : List Token) : ∀ ds : Disjuncts,
    Token.literals false (ds.tokens m n ++ ts) = ds.literals ++ Token.literals false ts
  | .last d => d.literals_tokens_append m n ts
  | .or d rest => by
    have hor : ∀ us, Token.literals false (Token.junctor .or :: us) = Token.literals false us :=
      fun _ => rfl
    rw [Disjuncts.tokens, List.append_assoc, List.cons_append, d.literals_tokens_append, hor,
      rest.literals_tokens_append, Disjuncts.literals, List.append_assoc]

end

mutual

/-- Within a span a disjunct leaves the depth at which it began, but for the parentheses around
it. -/
theorem Disjunct.spanFrom_tokens_append {e : ℤ} {m n : ℕ} {ts : List Token} (he : 0 < e) :
    ∀ d : Disjunct, SpanFrom (e + (m - n)) false ts → SpanFrom e false (d.tokens m n ++ ts)
  | .literal l, h => l.spanFrom_tokens_append.mpr ⟨he, h⟩
  | .group members, h => by
    have hdepth : e + (m - n) = e + ((m + 1 : ℕ) - (n + 1 : ℕ)) := by omega
    rw [hdepth] at h
    exact members.spanFrom_tokens_append he h

theorem Disjuncts.spanFrom_tokens_append {e : ℤ} {m n : ℕ} {ts : List Token} (he : 0 < e) :
    ∀ ds : Disjuncts, SpanFrom (e + (m - n)) false ts → SpanFrom e false (ds.tokens m n ++ ts)
  | .last d, h => d.spanFrom_tokens_append he h
  | .or d rest, h => by
    have hinner : 0 < e + (m - (0 : ℕ)) := by omega
    have hdepth : e + (m - n) = e + (m - (0 : ℕ)) + ((0 : ℕ) - n) := by omega
    rw [hdepth] at h
    rw [Disjuncts.tokens, List.append_assoc, List.cons_append]
    apply d.spanFrom_tokens_append he
    exact Token.spanFrom_or.mpr ⟨hinner, rest.spanFrom_tokens_append hinner h⟩

end

mutual

/-- A disjunct within parentheses begins a span. -/
theorem Disjunct.isSpan_tokens_append {m n : ℕ} {ts : List Token} (hm : 0 < m) :
    ∀ d : Disjunct, SpanFrom (m - n) false ts → IsSpan (d.tokens m n ++ ts)
  | .literal l, h => (l.isSpan_tokens_append hm).mpr h
  | .group members, h => by
    have hdepth : (m : ℤ) - n = (m + 1 : ℕ) - (n + 1 : ℕ) := by omega
    rw [hdepth] at h
    exact members.isSpan_tokens_append m.succ_pos h

theorem Disjuncts.isSpan_tokens_append {m n : ℕ} {ts : List Token} (hm : 0 < m) :
    ∀ ds : Disjuncts, SpanFrom (m - n) false ts → IsSpan (ds.tokens m n ++ ts)
  | .last d, h => d.isSpan_tokens_append hm h
  | .or d rest, h => by
    have hinner : 0 < (m : ℤ) - (0 : ℕ) := by omega
    have hdepth : (m : ℤ) - n = m - (0 : ℕ) + ((0 : ℕ) - n) := by omega
    rw [hdepth] at h
    rw [Disjuncts.tokens, List.append_assoc, List.cons_append]
    apply d.isSpan_tokens_append hm
    exact Token.spanFrom_or.mpr ⟨hinner, rest.spanFrom_tokens_append hinner h⟩

end

mutual

theorem Disjunct.kinds_tokens {m n : ℕ} : ∀ d : Disjunct, ∀ t ∈ d.tokens m n,
    t.IsAtom ∨ t.kind = .unary .not ∨ t.kind = .binary .or
  | .literal l => by
    obtain ⟨a, negated⟩ := l
    cases negated <;> simp [Disjunct.tokens, Literal.tokens, Token.IsAtom]
  | .group members => members.kinds_tokens

theorem Disjuncts.kinds_tokens {m n : ℕ} : ∀ ds : Disjuncts, ∀ t ∈ ds.tokens m n,
    t.IsAtom ∨ t.kind = .unary .not ∨ t.kind = .binary .or
  | .last d => d.kinds_tokens
  | .or d rest => by
    rw [Disjuncts.tokens, List.forall_mem_append, List.forall_mem_cons]
    exact ⟨d.kinds_tokens, .inr (.inr rfl), rest.kinds_tokens⟩

end

theorem Disjuncts.scan_spell_bare (ds : Disjuncts) : Token.scan ds.spell = ds.tokens 0 0 := by
  have hscan := ds.scan_spell 0 0
  rwa [List.replicate_zero, List.replicate_zero, List.nil_append, List.append_nil] at hscan

namespace Disjunct

theorem scan_spell_bare (d : Disjunct) : Token.scan d.spell = d.tokens 0 0 :=
  (Disjuncts.last d).scan_spell_bare

theorem isSpan_group (members : Disjuncts) : IsSpan ((group members).tokens 0 0) := by
  have hspan : IsSpan (members.tokens 1 1 ++ []) :=
    members.isSpan_tokens_append Nat.one_pos (Token.spanFrom_zero.mpr rfl)
  rwa [List.append_nil] at hspan

theorem isConjunct_tokens (d : Disjunct) : IsConjunct (d.tokens 0 0) := by
  cases d with
  | literal l => exact l.isConjunct_tokens
  | group members => exact .span (isSpan_group members)

/-- However it is grouped, a disjunct is one clause. -/
theorem clausesOfTokens_tokens (d : Disjunct) :
    clausesOfTokens (d.tokens 0 0) = .ok ⟨[Clause.ofList d.literals]⟩ := by
  have hattached : ∀ t ∈ d.tokens 0 0, t.Attached := by
    rw [← d.scan_spell_bare]
    exact fun t ht => Token.attached_of_mem_scan ht
  have hand : ∀ t ∈ d.tokens 0 0, t.isAnd = false := fun t ht =>
    Token.isAnd_eq_false_of_kind (d.kinds_tokens t ht)
  have hsegments : segments (d.tokens 0 0) = [d.tokens 0 0] := segments_single hand
  have hliterals : Token.literals false (d.tokens 0 0) = d.literals := by
    have happend := d.literals_tokens_append 0 0 []
    rwa [List.append_nil, Token.literals, List.append_nil] at happend
  refine (clausesOfTokens_eq_ok_iff hattached).mpr ⟨⟨?_, ?_⟩, ?_⟩
  · intro t ht h
    rw [hand t ht] at h
    cases h
  · rw [hsegments, List.forall_mem_singleton]
    exact d.isConjunct_tokens
  · rw [hsegments, List.map_singleton, clauseOf, hliterals]

/-! ### Stripping a disjunct -/

theorem stripOuterParens_group (members : Disjuncts) :
    stripOuterParens (group members).spell = peelParens (group members).spell := by
  have htrim : Text.trim (group members).spell = (group members).spell := by
    apply Text.trim_eq_self
    · rintro c ⟨⟩
      decide
    · intro c hc
      rw [spell, ← List.cons_append, List.getLast?_concat] at hc
      cases hc
      decide
  rw [stripOuterParens, htrim]

/-- A group that begins with another loses its outer parentheses. -/
theorem peelParens_group (members : Disjuncts) (h : ∃ text, members.spell = '(' :: text) :
    peelParens (group members).spell = peelParens members.spell := by
  obtain ⟨text, htext⟩ := h
  rw [spell, htext]
  exact peelParens_wrapped text

theorem scan_stripOuterParens_of_literal {d : Disjunct} {l : Literal} {m n : ℕ} {ts : List Token}
    (h : d.tokens 0 0 = l.tokens m n ++ ts) (hm : m < 2) :
    Token.scan (stripOuterParens d.spell) = d.tokens 0 0 := by
  rw [Token.scan_stripOuterParens_of_opens, scan_spell_bare]
  rw [scan_spell_bare, h]
  intro t ht
  rwa [l.opens_head_tokens ht]

/-- Stripping ends at a disjunct that begins with a literal, or else it comes to members that begin
with a group. -/
theorem stripOuterParens_cases : ∀ d : Disjunct,
    (d.literalFirst = true ∧ ∃ e : Disjunct, e.literals = d.literals ∧
      Token.scan (stripOuterParens d.spell) = e.tokens 0 0) ∨
    (d.literalFirst = false ∧ ∃ first rest,
      stripOuterParens d.spell = peelParens (Disjuncts.or (.group first) rest).spell)
  | .literal l =>
    have htokens : (literal l).tokens 0 0 = l.tokens 0 0 ++ [] := (List.append_nil _).symm
    .inl ⟨rfl, _, rfl, scan_stripOuterParens_of_literal htokens Nat.two_pos⟩
  | .group (.last (.literal l)) =>
    have htokens : (group (.last (literal l))).tokens 0 0 = l.tokens 1 1 ++ [] :=
      (List.append_nil _).symm
    .inl ⟨rfl, _, rfl, scan_stripOuterParens_of_literal htokens Nat.one_lt_two⟩
  | .group (.or (.literal l) rest) =>
    have htokens : (group (.or (literal l) rest)).tokens 0 0 =
        l.tokens 1 0 ++ Token.junctor .or :: rest.tokens 0 1 := rfl
    .inl ⟨rfl, _, rfl, scan_stripOuterParens_of_literal htokens Nat.one_lt_two⟩
  | .group (.or (.group first) rest) => by
    refine .inr ⟨rfl, first, rest, ?_⟩
    rw [stripOuterParens_group, peelParens_group]
    exact ⟨_, rfl⟩
  | .group (.last (.group members)) => by
    have hstrip : stripOuterParens (group (.last (.group members))).spell =
        stripOuterParens (group members).spell := by
      rw [stripOuterParens_group, stripOuterParens_group, peelParens_group _ ⟨_, rfl⟩]
      rfl
    rw [hstrip]
    exact stripOuterParens_cases (.group members)

end Disjunct

/-! ### Members that begin with a group -/

namespace Symbol

variable {n : ℕ} {before rest inner : List Symbol}

/-- An `or` outside all parentheses stays outside them when outer ones are taken away. -/
theorem Wraps.not_flat (h : Wraps n (before ++ junctor .or :: rest) inner)
    (hbefore : depth before ≤ 0) : ¬ Flat 0 inner := by
  induction n generalizing before rest with
  | zero =>
    obtain rfl := Wraps.zero_iff.mp h
    intro hflat
    obtain ⟨-, hpos⟩ | ⟨hand, -⟩ := (hflat before _ rest rfl).of_junctor
    · omega
    · cases hand
  | succ n ih =>
    obtain ⟨middle, houter, hmiddle⟩ := Wraps.succ_iff.mp h
    -- the first parenthesis belongs to the part before the `or`, the last to the part behind it
    cases before with
    | nil => cases houter
    | cons x before =>
      rw [List.cons_append] at houter
      obtain ⟨rfl, hinner⟩ := List.cons.inj houter
      rcases List.eq_nil_or_concat rest with rfl | ⟨init, y, rfl⟩
      · have hlast := List.append_inj_right' hinner rfl
        cases hlast
      · rw [List.concat_eq_append, ← List.cons_append, ← List.append_assoc] at hinner
        obtain ⟨rfl, -⟩ := List.append_inj' hinner rfl
        have hdepth : 1 + depth before ≤ 0 := hbefore
        exact ih hmiddle (by omega)

end Symbol

namespace Disjunct

/-- If a group comes first and is not alone, the `or` behind it stays outside all parentheses,
whatever outer ones are stripped. -/
theorem not_flat_of_wraps {n : ℕ} {first rest : Disjuncts} {inner : List Symbol}
    (h : Symbol.Wraps n (Symbol.scan (Disjuncts.or (.group first) rest).spell) inner) :
    ¬ Symbol.Flat 0 inner := by
  have hspan := isSpan_group first
  have hscan := (Disjuncts.or (.group first) rest).scan_spell_bare
  have hterms : ∀ t ∈ Token.scan (Disjuncts.or (.group first) rest).spell, t.IsTerm := by
    rw [hscan]
    exact fun t ht => Token.isTerm_of_kind ((Disjuncts.or (.group first) rest).kinds_tokens t ht)
  have hattached : ∀ t ∈ (group first).tokens 0 0, t.Attached := by
    rw [← (group first).scan_spell_bare]
    exact fun t ht => Token.attached_of_mem_scan ht
  have hclosed := (hspan.tidy hattached).1.closed
  rw [zero_add] at hclosed
  rw [Token.scan_eq_flatMap_symbols hterms, hscan, Disjuncts.tokens, List.flatMap_append,
    List.flatMap_cons, Token.symbols_of_bare ⟨rfl, rfl⟩, List.singleton_append] at h
  exact h.not_flat hclosed.le

/-- The spelling of a disjunction is read as one clause, of all its literals in order, if a literal
comes first or the groups before the first literal are each alone in the next.  Otherwise it is
answered with at least one fault. -/
theorem clausesOfText_spell (d : Disjunct) :
    (d.literalFirst = true → clausesOfText d.spell = .ok ⟨[Clause.ofList d.literals]⟩) ∧
    (d.literalFirst = false → ∃ faults, faults ≠ [] ∧ clausesOfText d.spell = .error faults) := by
  obtain ⟨hfirst, e, hliterals, hscan⟩ | ⟨hfirst, first, rest, hstrip⟩ := d.stripOuterParens_cases
  · refine ⟨fun _ => ?_, fun hnot => ?_⟩
    · rw [clausesOfText, hscan, e.clausesOfTokens_tokens, hliterals]
    · rw [hfirst] at hnot
      cases hnot
  · refine ⟨fun hnot => ?_, fun _ => ?_⟩
    · rw [hfirst] at hnot
      cases hnot
    · obtain ⟨s, hs⟩ | hfaults :=
        clausesOfTokens_eq_ok_or_error (Token.scan (stripOuterParens d.spell))
      · obtain ⟨n, hwraps⟩ := Symbol.scan_peelParens (Disjuncts.or (.group first) rest).spell
        rw [← hstrip] at hwraps
        exact absurd (flat_of_clausesOfText hs) (not_flat_of_wraps hwraps)
      · exact hfaults

example :
    let letter (c : Char) (hc : Text.isAlphanumeric c = true) : Disjunct := .literal ⟨⟨c, hc⟩, false⟩
    (group (.or (letter 'A' (by decide)) (.last (group (.or (letter 'B' (by decide))
      (.last (letter 'C' (by decide)))))))).spell = "(A or (B or C))".toList := by
  decide

/-- Not every group is read as one clause: of `((A or B) or C)` the stripping leaves
`(A or B) or C`, with an `or` between clauses. -/
theorem not_forall_clausesOfText_spell_group :
    ¬ ∀ members : Disjuncts, clausesOfText (group members).spell =
      .ok ⟨[Clause.ofList (group members).literals]⟩ := by
  intro h
  let letter (c : Char) (hc : Text.isAlphanumeric c = true) : Disjunct := .literal ⟨⟨c, hc⟩, false⟩
  have hmembers := h (.or (.group (.or (letter 'A' (by decide)) (.last (letter 'B' (by decide)))))
    (.last (letter 'C' (by decide))))
  revert hmembers
  decide +kernel

end Disjunct
end Clausal
