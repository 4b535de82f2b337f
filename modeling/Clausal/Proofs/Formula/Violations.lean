import Mathlib
import Clausal.Formula.ClauseReader
import Clausal.Proofs.Formula.Doomed

/-! # Reported violations

Whatever else is wrong with a formula, each of its words and parentheses is reported as often as it
breaks a rule.  What a token adds to the report depends on the tokens before it, through the
parentheses that they leave open and through a final `not` (`Token.Place.faults`), but not on the
conjuncts that were met.  A reader without clauses (`Tally`) therefore finds the same violations,
token by token (`ClauseReader.tally_read`) and over a whole formula
(`ClauseReader.tally_foldl_read`); only the violations about conjuncts escape it.  The report of a
text is accounted for in `violations_account`. -/

namespace Clausal

namespace ClauseFault

/-- Whether the violation is about conjuncts, and not about a word or a parenthesis. -/
def ofConjuncts : ClauseFault → Bool
  | noAnd | strayAnd | emptySpan | noClauses => true
  | _ => false

theorem ofConjuncts_iff {fault : ClauseFault} :
    fault.ofConjuncts = true ↔ fault ∈ [noAnd, strayAnd, emptySpan, noClauses] := by
  cases fault <;> simp [ofConjuncts]

/-- The connective of a report that it is excluded. -/
def excluded? : ClauseFault → Option Binary
  | excludedConnective op => some op
  | _ => none

/-- The connective of a report that it stands inside a clause. -/
def inside? : ClauseFault → Option Binary
  | connectiveInside op => some op
  | _ => none

/-- The word of a report that it is unexpected. -/
def unexpected? : ClauseFault → Option (List Char)
  | unexpectedWord text => some text
  | _ => none

/-- The text that stands where a `not` needs its atom. -/
def withoutAtom? : ClauseFault → Option (List Char)
  | notWithoutAtom text => some text
  | _ => none

end ClauseFault

/-! ### Tokens in their places -/

namespace Token

/-- The connective of a token that is one of the given ones. -/
def Kind.among? (ops : List Binary) : Kind → Option Binary
  | binary op => if op ∈ ops then some op else none
  | _ => none

/-- Whether the token is an atom or a word that a conjunctive normal form has a rule for. -/
def isKnown (t : Token) : Bool :=
  t.kind.atom?.isSome || t.kind ∈ [Kind.unary .not, .binary .and, .binary .or, .binary .implies,
    .binary .equivalent]

/-- The word of a token, or its text if it consists of parentheses. -/
def label (t : Token) : List Char := if t.kind = .parens then t.text else t.kind.word

/-- Whether a `not` may stand before the token. -/
def takesNot (t : Token) : Bool := t.kind.atom?.isSome && t.opens = 0

/-- The number of parentheses that are open after some tokens, where one that closes nothing does
not count. -/
def openAfter (ts : List Token) : ℕ := ts.foldl (fun depth t => depth + t.opens - t.closes) 0

/-- Whether a `not` comes last. -/
def endsInNot (ts : List Token) : Bool := ts.getLast?.any (·.kind = .unary .not)

/-- A token with all that stands before it. -/
structure Place where
  before : List Token
  token : Token

/-- The tokens of a sequence in their places. -/
def places (ts : List Token) : List Place := ts.mapIdx fun k t => ⟨ts.take k, t⟩

/-- The number of parentheses that are open at a token, its own included. -/
def Place.depth (p : Place) : ℕ := openAfter p.before + p.token.opens

/-- Whether a `not` stands before a token that does not take it. -/
def Place.lacksAtom (p : Place) : Bool := endsInNot p.before && !p.token.takesNot

/-- A report with one entry for each violation that a word or a parenthesis of the formula is. -/
structure Account (ts : List Token) (found : List ClauseFault) : Prop where
  excluded : found.filterMap ClauseFault.excluded? =
    ts.filterMap (·.kind.among? [.implies, .equivalent])
  inside : found.filterMap ClauseFault.inside? =
    ((places ts).filter (0 < ·.depth)).filterMap
      (·.token.kind.among? [.and, .implies, .equivalent])
  ors : found.count .orOutsideClause =
    (places ts).countP fun p => p.token.kind = .binary .or ∧ p.depth = 0
  unexpected : found.filterMap ClauseFault.unexpected? = (ts.filter (!·.isKnown)).map label
  negations : found.filterMap ClauseFault.withoutAtom? =
    ((places ts).filter Place.lacksAtom).map (·.token.text)
  finalNot : found.count .finalNot = if endsInNot ts then 1 else 0
  parens : found.count .unbalanced =
    ((places ts).map fun p => p.token.closes - p.depth).sum + if 0 < openAfter ts then 1 else 0

variable {t : Token} {ts : List Token}

@[simp]
theorem openAfter_concat (ts : List Token) (t : Token) :
    openAfter (ts ++ [t]) = openAfter ts + t.opens - t.closes := by
  simp [openAfter]

@[simp]
theorem endsInNot_concat (ts : List Token) (t : Token) :
    endsInNot (ts ++ [t]) = decide (t.kind = .unary .not) := by
  simp [endsInNot]

/-- A further token leaves the others in their places. -/
theorem places_concat (ts : List Token) (t : Token) :
    places (ts ++ [t]) = places ts ++ [⟨ts, t⟩] := by
  rw [places, List.mapIdx_concat, List.take_left' rfl, places]
  congr 1
  refine List.ext_getElem (by simp) fun k hk _ => ?_
  have hlength : k < ts.length := by simpa using hk
  simp [List.take_append_of_le_length hlength.le]

theorem map_token_places (ts : List Token) : (places ts).map (·.token) = ts := by
  induction ts using List.reverseRecOn with
  | nil => rfl
  | append_singleton ts t ih =>
    rw [places_concat, List.map_append, ih]
    rfl

theorem takesNot_iff : t.takesNot = true ↔ t.IsAtom ∧ t.opens = 0 := by
  rw [takesNot, IsAtom]
  cases t.kind <;> simp [Kind.atom?]

/-! ### What a token adds to the report -/

/-- The violations of a word at the given depth. -/
def wordFaults (t : Token) (depth : ℕ) : List ClauseFault :=
  (t.kind.among? [.implies, .equivalent]).toList.map .excludedConnective ++
    (if 0 < depth then (t.kind.among? [.and, .implies, .equivalent]).toList else []).map
      .connectiveInside ++
    (if t.kind = .binary .or ∧ depth = 0 then [.orOutsideClause] else []) ++
    (if !t.isKnown then [.unexpectedWord t.label] else [])

/-- The violations of a token in its place, apart from its parentheses: where a `not` waits for its
atom, and as a word. -/
def Place.wordFaults (p : Place) : List ClauseFault :=
  (if p.lacksAtom then [.notWithoutAtom p.token.text] else []) ++ p.token.wordFaults p.depth

/-- The violations of a token in its place. -/
def Place.faults (p : Place) : List ClauseFault :=
  p.wordFaults ++ List.replicate (p.token.closes - p.depth) .unbalanced

/-- The violations that show at the end, where a `not` may wait and parentheses be open. -/
def finalFaults (negating : Bool) (depth : ℕ) : List ClauseFault :=
  (if negating then [.finalNot] else []) ++ if 0 < depth then [.unbalanced] else []

end Token

/-! ### Reading without clauses -/

/-- What of a reader matters to the violations that are not about conjuncts. -/
structure Tally where
  depth : ℕ
  negating : Bool
  faults : List ClauseFault

namespace Tally

/-- Opens parentheses. -/
def openParens (s : Tally) (n : ℕ) : Tally := { s with depth := s.depth + n }

/-- Closes parentheses. -/
def closeParens (s : Tally) (n : ℕ) : Tally where
  depth := s.depth - n
  negating := s.negating
  faults := s.faults ++ List.replicate (n - s.depth) .unbalanced

/-- Takes in a word at its depth. -/
def term (s : Tally) (t : Token) : Tally where
  depth := s.depth
  negating := s.negating || t.kind = .unary .not
  faults := s.faults ++ t.wordFaults s.depth

/-- Reads a token. -/
def read (s : Tally) (t : Token) : Tally where
  depth := s.depth + t.opens - t.closes
  negating := t.kind = .unary .not
  faults := s.faults ++ ((if s.negating && !t.takesNot then [.notWithoutAtom t.text] else []) ++
    t.wordFaults (s.depth + t.opens) ++
    List.replicate (t.closes - (s.depth + t.opens)) .unbalanced)

end Tally

namespace ClauseReader

variable {r : ClauseReader} {t : Token} {ts : List Token}

/-- The violations so far, without those about conjuncts. -/
def tally (r : ClauseReader) : Tally where
  depth := r.depth
  negating := r.negating
  faults := r.faults.filter (!·.ofConjuncts)

theorem depth_tally (r : ClauseReader) : r.tally.depth = r.depth := rfl

theorem tally_report (r : ClauseReader) (fault : ClauseFault) :
    (r.report fault).tally = { r.tally with
      faults := r.tally.faults ++ if fault.ofConjuncts then [] else [fault] } := by
  cases h : fault.ofConjuncts <;> simp [tally, report, h]

theorem tally_report_of_ofConjuncts (r : ClauseReader) {fault : ClauseFault}
    (h : fault.ofConjuncts = true) : (r.report fault).tally = r.tally := by
  rw [tally_report, if_pos h, List.append_nil]

theorem tally_startConjunct (r : ClauseReader) : r.startConjunct.tally = r.tally := by
  unfold startConjunct
  by_cases hands : r.ands = if r.started then 1 else 0
  · rw [if_pos hands]
    rfl
  · rw [if_neg hands]
    split
    · exact r.tally_report_of_ofConjuncts rfl
    · exact r.tally_report_of_ofConjuncts rfl

theorem tally_literal (r : ClauseReader) (l : Literal) : (r.literal l).tally = r.tally := by
  unfold literal
  split_ifs
  · exact r.tally_startConjunct
  · rfl

theorem tally_openParens (r : ClauseReader) (n : ℕ) :
    (r.openParens n).tally = r.tally.openParens n := by
  unfold openParens
  split_ifs with hn hdepth
  · rw [hn]
    rfl
  · have hstart := r.tally_startConjunct
    simp only [tally, Tally.openParens, Tally.mk.injEq] at hstart ⊢
    exact ⟨by omega, hstart.2⟩
  · rfl

theorem tally_endSpan (r : ClauseReader) : r.endSpan.tally = { r.tally with depth := 0 } := by
  unfold endSpan
  dsimp only
  split_ifs
  · exact tally_report_of_ofConjuncts _ rfl
  · rfl

theorem tally_closeParens (r : ClauseReader) (n : ℕ) :
    (r.closeParens n).tally = r.tally.closeParens n := by
  have hunbalanced : ∀ r' : ClauseReader, r'.tally = { r.tally with depth := 0 } →
      ({ r' with faults := r'.faults ++ List.replicate (n - r.depth) .unbalanced } :
        ClauseReader).tally =
        ⟨0, r.negating, r.tally.faults ++ List.replicate (n - r.depth) .unbalanced⟩ := by
    intro r' h
    simp only [tally, Tally.mk.injEq] at h ⊢
    refine ⟨h.1, h.2.1, ?_⟩
    rw [List.filter_append, h.2.2, List.filter_replicate_of_pos rfl]
  unfold closeParens
  split
  · next hn =>
    have hnone : n - r.tally.depth = 0 := Nat.sub_eq_zero_of_le hn.le
    rw [Tally.closeParens, hnone, List.replicate_zero, List.append_nil]
    rfl
  · next hn =>
    have hall : r.tally.depth - n = 0 := Nat.sub_eq_zero_of_le (Nat.le_of_not_lt hn)
    rw [Tally.closeParens, hall]
    apply hunbalanced
    split
    · next hdepth =>
      rw [← hdepth]
      rfl
    · exact r.tally_endSpan

/-- A word is reported by the depth it stands at. -/
theorem tally_term (r : ClauseReader) (t : Token) : (r.term t).tally = r.tally.term t := by
  rw [Tally.term, depth_tally, Token.wordFaults, Token.isKnown, Token.label, term]
  cases t.kind with
  | atom a =>
    rw [tally_literal]
    simp [tally, Token.Kind.among?, Token.Kind.atom?]
  | unary op =>
    cases op <;> simp [tally, report, ClauseFault.ofConjuncts, Token.Kind.among?,
      Token.Kind.atom?, Token.Kind.word]
  | binary op =>
    by_cases hdepth : r.depth = 0 <;> cases op <;>
      simp [hdepth, tally, report, ClauseFault.ofConjuncts, Token.Kind.among?, Token.Kind.atom?,
        Token.Kind.word, Nat.pos_iff_ne_zero]
  | unknown word =>
    simp [tally, report, ClauseFault.ofConjuncts, Token.Kind.among?, Token.Kind.atom?,
      Token.Kind.word]
  | parens => simp [tally, report, ClauseFault.ofConjuncts, Token.Kind.among?, Token.Kind.atom?]

theorem tally_readPlain (r : ClauseReader) (t : Token) :
    (r.readPlain t).tally = ((r.tally.openParens t.opens).term t).closeParens t.closes := by
  rw [readPlain, tally_closeParens, tally_term, tally_openParens]

/-- Every token adds the same to the report, whatever conjuncts were met before it. -/
theorem tally_read (r : ClauseReader) (t : Token) : (r.read t).tally = r.tally.read t := by
  cases hneg : r.negating with
  | false =>
    rw [read_eq_readPlain hneg, tally_readPlain]
    simp [Tally.read, Tally.openParens, Tally.term, Tally.closeParens, tally, hneg]
  | true =>
    by_cases htakes : t.takesNot = true
    · obtain ⟨⟨a, hkind⟩, hopens⟩ := Token.takesNot_iff.mp htakes
      rw [read_negated_atom hneg hkind hopens, tally_closeParens, tally_literal]
      have hwords : t.wordFaults r.depth = [] := by
        rw [Token.wordFaults, Token.isKnown, hkind]
        simp [Token.Kind.among?, Token.Kind.atom?]
      simp [Tally.read, Tally.closeParens, tally, hwords, htakes, hkind, hopens]
    · have hother : ∀ a, t.kind = .atom a → t.opens ≠ 0 := fun a hkind hopens =>
        htakes (Token.takesNot_iff.mpr ⟨⟨a, hkind⟩, hopens⟩)
      rw [read_negated_other hneg hother, tally_readPlain, tally_report]
      simp [Tally.read, Tally.openParens, Tally.term, Tally.closeParens, tally, hneg, htakes,
        ClauseFault.ofConjuncts]

/-- The violations that are not about conjuncts are those of the tokens in their places. -/
theorem tally_foldl_read (ts : List Token) :
    (ts.foldl read start).tally =
      ⟨Token.openAfter ts, Token.endsInNot ts, (Token.places ts).flatMap Token.Place.faults⟩ := by
  induction ts using List.reverseRecOn with
  | nil => rfl
  | append_singleton ts t ih =>
    rw [List.foldl_append, List.foldl_cons, List.foldl_nil, tally_read, ih,
      Token.places_concat, List.flatMap_append, List.flatMap_singleton,
      Token.openAfter_concat, Token.endsInNot_concat]
    rfl

end ClauseReader

/-! ### The report of a text -/

/-- The violations that a text is answered with. -/
def violations (text : List Char) : List ClauseFault :=
  match clausesOfText text with
  | .ok _ => []
  | .error found => found

theorem violations_eq (text : List Char) :
    violations text = ((Token.scan (stripOuterParens text)).foldl ClauseReader.read
      ClauseReader.start).allFaults := by
  unfold violations clausesOfText clausesOfTokens ClauseReader.finish
  split
  · next h =>
    split at h
    · next hnil => exact hnil.symm
    · cases h
  · next h =>
    split at h
    · cases h
    · cases h
      rfl

theorem ClauseReader.filter_allFaults (r : ClauseReader) :
    r.allFaults.filter (!·.ofConjuncts) =
      r.tally.faults ++ Token.finalFaults r.tally.negating r.tally.depth := by
  have hfinal : (r.faults ++ r.endFaults).filter (!·.ofConjuncts) =
      r.tally.faults ++ Token.finalFaults r.tally.negating r.tally.depth := by
    rw [endFaults, Token.finalFaults, List.filter_append, List.filter_append]
    congr 2
    · cases hneg : r.negating <;> simp only [tally, hneg] <;> split_ifs <;> rfl
    · rw [depth_tally]
      split_ifs <;> rfl
  unfold allFaults
  dsimp only
  split
  · next h =>
    rw [← hfinal, h.1]
    rfl
  · exact hfinal

theorem filter_violations (text : List Char) :
    let ts := Token.scan (stripOuterParens text)
    (violations text).filter (!·.ofConjuncts) = (Token.places ts).flatMap Token.Place.faults ++
      Token.finalFaults (Token.endsInNot ts) (Token.openAfter ts) := by
  intro ts
  rw [violations_eq, ClauseReader.filter_allFaults, ClauseReader.tally_foldl_read]

namespace Token

/-! ### What is reported at a place -/

namespace Place

variable (p : Place)

theorem filterMap_excluded? : p.wordFaults.filterMap ClauseFault.excluded? =
    (p.token.kind.among? [.implies, .equivalent]).toList := by
  unfold wordFaults Token.wordFaults
  split_ifs <;> simp [ClauseFault.excluded?, Function.comp_def, List.filterMap_cons]

theorem filterMap_inside? : p.wordFaults.filterMap ClauseFault.inside? =
    (if 0 < p.depth then p.token.kind.among? [.and, .implies, .equivalent] else none).toList := by
  unfold wordFaults Token.wordFaults
  split_ifs <;> simp [ClauseFault.inside?, Function.comp_def, List.filterMap_cons]

theorem filterMap_unexpected? : p.wordFaults.filterMap ClauseFault.unexpected? =
    (if !p.token.isKnown then some p.token.label else none).toList := by
  unfold wordFaults Token.wordFaults
  split_ifs <;> simp [ClauseFault.unexpected?, Function.comp_def, List.filterMap_cons]

theorem filterMap_withoutAtom? : p.wordFaults.filterMap ClauseFault.withoutAtom? =
    (if p.lacksAtom then some p.token.text else none).toList := by
  unfold wordFaults Token.wordFaults
  split_ifs <;> simp [ClauseFault.withoutAtom?, Function.comp_def, List.filterMap_cons]

theorem count_orOutsideClause : p.faults.count .orOutsideClause =
    if p.token.kind = .binary .or ∧ p.depth = 0 then 1 else 0 := by
  have hexcluded : ∀ ops : List Binary,
      (ops.map ClauseFault.excludedConnective).count .orOutsideClause = 0 := fun ops =>
    List.count_eq_zero.mpr (by simp)
  have hinside : ∀ ops : List Binary,
      (ops.map ClauseFault.connectiveInside).count .orOutsideClause = 0 := fun ops =>
    List.count_eq_zero.mpr (by simp)
  rw [faults, wordFaults, Token.wordFaults]
  simp only [List.count_append, hexcluded, hinside]
  split_ifs <;> simp [List.count_replicate]

theorem count_finalNot : p.faults.count .finalNot = 0 := by
  rw [List.count_eq_zero]
  simp [faults, wordFaults, Token.wordFaults]

theorem count_unbalanced : p.faults.count .unbalanced = p.token.closes - p.depth := by
  have hword : p.wordFaults.count .unbalanced = 0 := by
    rw [List.count_eq_zero]
    simp [wordFaults, Token.wordFaults]
  rw [faults, List.count_append, hword, List.count_replicate_self, zero_add]

end Place

theorem count_finalFaults (negating : Bool) (depth : ℕ) :
    (finalFaults negating depth).count .orOutsideClause = 0 ∧
      (finalFaults negating depth).count .finalNot = (if negating then 1 else 0) ∧
      (finalFaults negating depth).count .unbalanced = if 0 < depth then 1 else 0 := by
  unfold finalFaults
  split_ifs <;> decide

/-! ### The account -/

section Found

variable {β : Type} {ts : List Token} {found : List ClauseFault}

theorem filterMap_places (f : Token → Option β) (ts : List Token) :
    (places ts).filterMap (fun p => f p.token) = ts.filterMap f := by
  have hmap : ((places ts).map (·.token)).filterMap f =
      (places ts).filterMap (fun p => f p.token) := List.filterMap_map
  rw [← hmap, map_token_places]

theorem map_filter_eq_filterMap {α : Type} (q : α → Bool) (f : α → β) (l : List α) :
    (l.filter q).map f = l.filterMap fun a => if q a then some (f a) else none := by
  rw [← List.filterMap_eq_map, List.filterMap_filter]
  rfl

theorem sum_ite_eq_countP {α : Type} (q : α → Prop) [DecidablePred q] (l : List α) :
    (l.map fun a => if q a then 1 else 0).sum = l.countP q := by
  induction l with
  | nil => rfl
  | cons a l ih => simp [List.countP_cons, ih, add_comm]

variable (hfound : found.filter (!·.ofConjuncts) =
  (places ts).flatMap Place.faults ++ finalFaults (endsInNot ts) (openAfter ts))

include hfound

/-- A selection among the violations of words goes from token to token. -/
theorem filterMap_found {g : ClauseFault → Option β} {h : Place → Option β}
    (hnone : ∀ fault ∈ [ClauseFault.noAnd, .strayAnd, .emptySpan, .noClauses] ++
      [.finalNot, .unbalanced], g fault = none)
    (hplace : ∀ p : Place, p.wordFaults.filterMap g = (h p).toList) :
    found.filterMap g = (places ts).filterMap h := by
  have hnot : g .finalNot = none := hnone _ (by simp)
  have hparens : g .unbalanced = none := hnone _ (by simp)
  have hfilter : found.filterMap g = (found.filter (!·.ofConjuncts)).filterMap g := by
    rw [List.filterMap_filter]
    refine List.filterMap_congr fun fault _ => ?_
    cases hfault : fault.ofConjuncts with
    | false => rfl
    | true => exact hnone fault (List.mem_append_left _ (ClauseFault.ofConjuncts_iff.mp hfault))
  have hfaults : ∀ p : Place, p.faults.filterMap g = (h p).toList := by
    intro p
    have hclosing : (List.replicate (p.token.closes - p.depth) ClauseFault.unbalanced).filterMap g =
        [] := by
      simp [hparens]
    rw [Place.faults, List.filterMap_append, hplace, hclosing, List.append_nil]
  have hfinal : (finalFaults (endsInNot ts) (openAfter ts)).filterMap g = [] := by
    unfold finalFaults
    split_ifs <;> simp [hnot, hparens]
  rw [hfilter, hfound, List.filterMap_append, hfinal, List.append_nil, List.filterMap_flatMap,
    List.filterMap_eq_flatMap_toList]
  simp only [hfaults]

theorem count_found {fault : ClauseFault} (hfault : fault.ofConjuncts = false) :
    found.count fault =
      ((places ts).map fun p => p.faults.count fault).sum +
        (finalFaults (endsInNot ts) (openAfter ts)).count fault := by
  have hfilter : found.count fault = (found.filter (!·.ofConjuncts)).count fault := by
    rw [List.count_filter (by simp [hfault])]
  rw [hfilter, hfound, List.count_append, List.count_flatMap]
  rfl

/-- A report with the violations of the tokens in their places, and those at the end, accounts for
the tokens. -/
theorem account_of_found : Account ts found where
  excluded := by
    rw [← filterMap_places]
    exact filterMap_found hfound (by decide) Place.filterMap_excluded?
  inside := by
    rw [List.filterMap_filter]
    simp only [decide_eq_true_eq]
    exact filterMap_found hfound (by decide) Place.filterMap_inside?
  ors := by
    rw [count_found hfound rfl, (count_finalFaults _ _).1, add_zero]
    simp only [Place.count_orOutsideClause]
    exact sum_ite_eq_countP _ _
  unexpected := by
    rw [map_filter_eq_filterMap, ← filterMap_places]
    exact filterMap_found hfound (by decide) Place.filterMap_unexpected?
  negations := by
    rw [map_filter_eq_filterMap]
    exact filterMap_found hfound (by decide) Place.filterMap_withoutAtom?
  finalNot := by
    rw [count_found hfound rfl, (count_finalFaults _ _).2.1]
    simp [Place.count_finalNot]
  parens := by
    rw [count_found hfound rfl, (count_finalFaults _ _).2.2]
    simp only [Place.count_unbalanced]

end Found
end Token

/-- Each violation of a text that is not about conjuncts is reported once for each of its
occurrences, whatever else is wrong with the text. -/
theorem violations_account (text : List Char) :
    Token.Account (Token.scan (stripOuterParens text)) (violations text) :=
  Token.account_of_found (filter_violations text)

-- an excluded connective inside a clause breaks two rules
example : violations "(A and B) or (C implies D)".toList =
    [.connectiveInside .and, .orOutsideClause, .noAnd, .excludedConnective .implies,
      .connectiveInside .implies] := by decide +kernel

end Clausal
