import Mathlib
import Clausal.Proofs.Formula.Doomed
import Clausal.Proofs.Formula.Token

/-! # Phases of a reader

As long as a reader has reported nothing it is in one of a few phases: within a conjunct, or just
behind one (`Phase`).  A token that is no `and` either leads to the next phase or dooms the reader
(`Phase.read_reader`), and so does an `and` anywhere but behind a conjunct.  So the clauses of a
sequence of tokens are those of its conjuncts, each read by phases alone
(`Phase.finish_foldl_read`). -/

namespace Clausal

/-- What a reader knows of the present conjunct while nothing is wrong with it: the parentheses
that are open, the literals of the span and whether a `not` waits, or the clause it made up. -/
inductive Phase where
  | within (depth : ℕ) (span : List Literal) (negating : Bool)
  | complete (c : Clause)

namespace Phase

/-- The phase before a conjunct. -/
def begin : Phase := within 0 [] false

/-- The phase after a literal was added at the given depth, and then parentheses were closed. -/
def settle (depth : ℕ) (span : List Literal) (closes : ℕ) : Option Phase :=
  if closes < depth then some (within (depth - closes) span false)
  else if closes = depth then some (complete (Clause.ofList span))
  else none

/-- The phase after a token that is no `and`, if the token has its place in the conjunct. -/
def next? : Phase → Token → Option Phase
  | within depth span negating, t =>
    match t.kind with
    | .atom a =>
      if negating ∧ t.opens ≠ 0 then none
      else settle (depth + t.opens) (span ++ [⟨a, negating⟩]) t.closes
    | .unary .not => if negating then none else some (within (depth + t.opens) span true)
    | .binary .or =>
      if negating ∨ depth + t.opens = 0 then none else some (within (depth + t.opens) span false)
    | _ => none
  | complete _, _ => none

/-- Outside any span no literal is kept. -/
def Sound : Phase → Prop
  | within depth span _ => depth = 0 → span = []
  | complete _ => True

theorem sound_begin : begin.Sound := fun _ => rfl

/-- The reader in a phase, after the clauses of earlier conjuncts. -/
def reader (before : List Clause) : Phase → ClauseReader
  | within depth span negating =>
    ⟨depth, span, !before.isEmpty || depth ≠ 0, if depth = 0 ∧ before ≠ [] then 1 else 0, negating,
      before, []⟩
  | complete c => ⟨0, [], true, 0, false, before ++ [c], []⟩

/-- A reader stands in the phase, or is doomed if there is none. -/
def Shows (before : List Clause) : Option Phase → ClauseReader → Prop
  | some p, r => r = p.reader before
  | none, r => r.Doomed

variable {before : List Clause} {depth : ℕ} {span : List Literal} {negating : Bool} {p : Phase}
  {t : Token}

@[simp]
theorem depth_reader : ((within depth span negating).reader before).depth = depth := rfl

/-- A conjunct that begins in its place is not reported. -/
theorem startConjunct_reader (before : List Clause) (span : List Literal) (negating : Bool) :
    ((within 0 span negating).reader before).startConjunct =
      ⟨0, span, true, 0, negating, before, []⟩ := by
  cases before <;> rfl

theorem openParens_reader (hspan : depth = 0 → span = []) (n : ℕ) :
    ((within depth span negating).reader before).openParens n =
      (within (depth + n) span negating).reader before := by
  by_cases hn : n = 0
  · rw [ClauseReader.openParens, if_pos hn, hn, Nat.add_zero]
  · by_cases hdepth : depth = 0
    · subst hdepth
      obtain rfl := hspan rfl
      rw [ClauseReader.openParens, if_neg hn, depth_reader, if_pos rfl, startConjunct_reader]
      simp [reader, hn]
    · simp [ClauseReader.openParens, reader, hn, hdepth]

theorem literal_reader (hdepth : depth ≠ 0) (l : Literal) :
    ((within depth span false).reader before).literal l =
      (within depth (span ++ [l]) false).reader before := by
  rw [ClauseReader.literal, depth_reader, if_neg hdepth]
  rfl

theorem literal_reader_outside (l : Literal) :
    ((within 0 [] false).reader before).literal l = (complete (Clause.unit l)).reader before := by
  rw [ClauseReader.literal, depth_reader, if_pos rfl, startConjunct_reader]
  rfl

/-- Closing parentheses outside any span is reported. -/
theorem closeParens_reader_complete (c : Clause) (n : ℕ) :
    Shows before (if n = 0 then some (complete c) else none)
      (((complete c).reader before).closeParens n) := by
  cases n with
  | zero => simp [Shows, ClauseReader.closeParens, reader]
  | succ n =>
    exact .inl (by simp [ClauseReader.closeParens, reader, List.replicate_succ])

theorem closeParens_reader_within (hdepth : depth ≠ 0) (hspan : span ≠ []) (n : ℕ) :
    Shows before (settle depth span n)
      (((within depth span false).reader before).closeParens n) := by
  unfold settle
  split
  · next hlt =>
    have hne : depth - n ≠ 0 := by omega
    simp [Shows, ClauseReader.closeParens, reader, hlt, hdepth, hne]
  · next hge =>
    split
    · next heq =>
      subst heq
      simp [Shows, ClauseReader.closeParens, ClauseReader.endSpan, ClauseReader.keep, reader,
        hdepth, hspan]
    · next hne =>
      have hmore : n - depth ≠ 0 := by omega
      refine .inl ?_
      simp [ClauseReader.closeParens, reader, hge, hdepth, hmore]

theorem closeParens_literal_reader (hspan : depth = 0 → span = []) (l : Literal) (n : ℕ) :
    Shows before (settle depth (span ++ [l]) n)
      ((((within depth span false).reader before).literal l).closeParens n) := by
  by_cases hdepth : depth = 0
  · subst hdepth
    rw [hspan rfl, literal_reader_outside]
    have hclose : Shows before (if n = 0 then some (complete (Clause.unit l)) else none)
        (((complete (Clause.unit l)).reader before).closeParens n) :=
      closeParens_reader_complete (Clause.unit l) n
    simpa [settle, Clause.unit] using hclose
  · rw [literal_reader hdepth]
    exact closeParens_reader_within hdepth (by simp) n

/-- Only atoms, `not`s and `or`s have a place in a conjunct. -/
theorem next?_eq_none_of_kind
    (hkind : ¬ (t.IsAtom ∨ t.kind = .unary .not ∨ t.kind = .binary .or)) : p.next? t = none := by
  cases p with
  | complete c => rfl
  | within depth span negating =>
    dsimp only [next?]
    split
    · next a hatom => exact absurd (.inl ⟨a, hatom⟩) hkind
    · next hnot => exact absurd (.inr (.inl hnot)) hkind
    · next hor => exact absurd (.inr (.inr hor)) hkind
    · rfl

theorem next?_eq_none_of_negating (hother : ∀ a, t.kind = .atom a → t.opens ≠ 0) :
    (within depth span true).next? t = none := by
  dsimp only [next?]
  split
  · next a hkind => rw [if_pos ⟨rfl, hother a hkind⟩]
  · rfl
  · exact if_pos (.inl rfl)
  · rfl

theorem next?_atom {a : Atom} (hkind : t.kind = .atom a) (h : negating = true → t.opens = 0) :
    (within depth span negating).next? t =
      settle (depth + t.opens) (span ++ [⟨a, negating⟩]) t.closes := by
  dsimp only [next?]
  rw [hkind]
  exact if_neg fun hno => hno.2 (h hno.1)

theorem next?_not (hkind : t.kind = .unary .not) :
    (within depth span false).next? t = some (within (depth + t.opens) span true) := by
  dsimp only [next?]
  rw [hkind]
  rfl

theorem next?_or (hkind : t.kind = .binary .or) (hdepth : depth + t.opens ≠ 0) :
    (within depth span false).next? t = some (within (depth + t.opens) span false) := by
  dsimp only [next?]
  rw [hkind]
  exact if_neg fun h => hdepth (h.resolve_left Bool.false_ne_true)

theorem read_reader_negating (hspan : depth = 0 → span = []) (t : Token) :
    Shows before ((within depth span true).next? t)
      (((within depth span true).reader before).read t) := by
  by_cases hatom : ∃ a, t.kind = .atom a ∧ t.opens = 0
  · obtain ⟨a, hkind, hopens⟩ := hatom
    rw [next?_atom hkind fun _ => hopens, ClauseReader.read_negated_atom rfl hkind hopens, hopens]
    exact closeParens_literal_reader hspan ⟨a, true⟩ t.closes
  · have hother : ∀ a, t.kind = .atom a → t.opens ≠ 0 := fun a hkind hopens =>
      hatom ⟨a, hkind, hopens⟩
    rw [next?_eq_none_of_negating hother]
    exact .inl (ClauseReader.faults_read_ne_nil rfl hother)

theorem term_reader_atom {a : Atom} (hkind : t.kind = .atom a) :
    ((within depth span false).reader before).term t =
      ((within depth span false).reader before).literal ⟨a, false⟩ := by
  rw [ClauseReader.term, hkind]
  rfl

theorem term_reader_not (hkind : t.kind = .unary .not) :
    ((within depth span false).reader before).term t =
      (within depth span true).reader before := by
  rw [ClauseReader.term, hkind]
  rfl

theorem term_reader_or (hkind : t.kind = .binary .or) (hdepth : depth ≠ 0) :
    ((within depth span false).reader before).term t =
      (within depth span false).reader before := by
  rw [ClauseReader.term, hkind]
  exact if_neg hdepth

theorem read_reader_plain (hspan : depth = 0 → span = []) (hand : t.kind ≠ .binary .and)
    (hattached : t.Attached) :
    Shows before ((within depth span false).next? t)
      (((within depth span false).reader before).read t) := by
  have hspan' : depth + t.opens = 0 → span = [] := fun h => hspan (by omega)
  have hread : ((within depth span false).reader before).read t =
      (((within (depth + t.opens) span false).reader before).term t).closeParens t.closes := by
    rw [ClauseReader.read_eq_readPlain rfl, ClauseReader.readPlain, openParens_reader hspan]
  have hfault : (((within (depth + t.opens) span false).reader before).term t).faults ≠ [] →
      (((within depth span false).reader before).read t).Doomed := by
    intro h
    rw [hread]
    exact .of_faults h (ClauseReader.faults_closeParens _ _)
  by_cases hkinds : t.IsAtom ∨ t.kind = .unary .not ∨ t.kind = .binary .or
  · obtain ⟨a, hkind⟩ | hkind | hkind := hkinds
    · rw [next?_atom hkind (by simp), hread, term_reader_atom hkind]
      exact closeParens_literal_reader hspan' ⟨a, false⟩ t.closes
    · rw [next?_not hkind, hread, term_reader_not hkind, hattached.1 _ hkind,
        ClauseReader.closeParens_zero]
      rfl
    · by_cases hdepth : depth + t.opens = 0
      · have hnone : (within depth span false).next? t = none := by
          simp [next?, hkind, hdepth]
        rw [hnone]
        exact hfault (by simp [ClauseReader.term, hkind, hdepth, ClauseReader.report])
      · rw [next?_or hkind hdepth, hread, term_reader_or hkind hdepth, hattached.2 _ hkind,
          ClauseReader.closeParens_zero]
        rfl
  · rw [next?_eq_none_of_kind hkinds]
    exact hfault (ClauseReader.faults_term_ne_nil hkinds hand)

/-- Reading a token that is no `and` is one step of the phases. -/
theorem read_reader (hsound : p.Sound) (hand : t.kind ≠ .binary .and) (hattached : t.Attached) :
    Shows before (p.next? t) ((p.reader before).read t) := by
  cases p with
  | complete c =>
    rw [ClauseReader.read_eq_readPlain rfl]
    exact ClauseReader.doomed_readPlain rfl (by simp [reader]) fun h => absurd h hand
  | within depth span negating =>
    cases negating with
    | true => exact read_reader_negating hsound t
    | false => exact read_reader_plain hsound hand hattached

theorem settle_sound {closes : ℕ} {p' : Phase} (h : settle depth span closes = some p') :
    p'.Sound := by
  unfold settle at h
  split at h
  · cases h
    exact fun hzero => by omega
  · split at h
    · cases h
      trivial
    · cases h

theorem next?_sound {p' : Phase} (hsound : p.Sound) (h : p.next? t = some p') : p'.Sound := by
  cases p with
  | complete c => cases h
  | within depth span negating =>
    dsimp only [next?] at h
    split at h
    · split at h
      · cases h
      · exact settle_sound h
    · split at h <;> cases h
      exact fun hzero => hsound (by omega)
    · split at h <;> cases h
      exact fun hzero => hsound (by omega)
    · cases h

/-! ### Whole formulas -/

/-- An `and` without parentheses behind a conjunct makes room for the next one. -/
theorem read_and_complete (c : Clause) (hkind : t.kind = .binary .and) (hopens : t.opens = 0)
    (hcloses : t.closes = 0) :
    ((complete c).reader before).read t = begin.reader (before ++ [c]) := by
  rw [ClauseReader.read_eq_readPlain rfl, ClauseReader.readPlain, hopens, hcloses,
    ClauseReader.closeParens_zero, ClauseReader.term, hkind]
  simp [reader, begin, ClauseReader.openParens]

/-- Anywhere else an `and` dooms the reader. -/
theorem doomed_read_and (hsound : p.Sound) (hkind : t.kind = .binary .and)
    (h : ∀ c, p = complete c → t.opens ≠ 0) : ((p.reader before).read t).Doomed := by
  cases p with
  | complete c =>
    rw [ClauseReader.read_eq_readPlain rfl]
    exact .of_faults (ClauseReader.faults_openParens_ne_nil rfl (by simp [reader]) (h c rfl))
      ((ClauseReader.faults_term _ t).trans (ClauseReader.faults_closeParens _ _))
  | within depth span negating =>
    cases negating with
    | true => exact .inl (ClauseReader.faults_read_ne_nil rfl (by simp [hkind]))
    | false =>
      rw [ClauseReader.read_eq_readPlain rfl, ClauseReader.readPlain, openParens_reader hsound]
      refine ClauseReader.doomed_closeParens ?_ _
      rw [ClauseReader.term, hkind]
      dsimp only
      split
      · next hdepth =>
        obtain ⟨rfl, hopens⟩ : depth = 0 ∧ t.opens = 0 := Nat.add_eq_zero_iff.mp hdepth
        refine .inr ⟨hdepth, ?_, .inl (Nat.succ_ne_zero _)⟩
        cases before <;> simp [reader, hopens]
      · exact .inl (by simp [ClauseReader.report])

theorem finish_reader {s : ClauseSet} :
    (p.reader before).finish = .ok s ↔ ∃ c, p = complete c ∧ s = ⟨before ++ [c]⟩ := by
  rw [ClauseReader.finish_eq_ok_iff]
  cases p with
  | complete c =>
    have hfaults : ((complete c).reader before).allFaults = [] := by
      simp [ClauseReader.allFaults, ClauseReader.endFaults, reader]
    refine ⟨fun h => ⟨c, rfl, h.2⟩, ?_⟩
    rintro ⟨c', hc, hs⟩
    cases hc
    exact ⟨hfaults, hs⟩
  | within depth span negating =>
    have hfaults : ((within depth span negating).reader before).allFaults ≠ [] := by
      by_cases hdepth : depth = 0
      · cases negating <;> cases before <;>
          simp [ClauseReader.allFaults, ClauseReader.endFaults, reader, hdepth]
      · simp [ClauseReader.allFaults, ClauseReader.endFaults, reader, hdepth,
          Nat.pos_of_ne_zero hdepth]
    simp [hfaults]

/-- The clause of a conjunct that is read from a phase on. -/
def conjunct? (p : Phase) (seg : List Token) : Option Clause :=
  match seg.foldlM next? p with
  | some (complete c) => some c
  | _ => none

theorem conjunct?_nil {c : Clause} : p.conjunct? [] = some c ↔ p = complete c := by
  cases p <;> simp [conjunct?]

theorem conjunct?_cons (seg : List Token) :
    p.conjunct? (t :: seg) = (p.next? t).bind (·.conjunct? seg) := by
  cases h : p.next? t <;> simp [conjunct?, h]

/-- The clauses of a formula are those of its conjuncts, the pieces between its `and`s, and no
`and` carries a parenthesis. -/
theorem finish_foldl_read {ts seg : List Token} {segs : List (List Token)} {s : ClauseSet}
    (hsound : p.Sound) (hattached : ∀ t ∈ ts, t.Attached)
    (hsplit : ts.splitOnP Token.isAnd = seg :: segs) :
    (ts.foldl ClauseReader.read (p.reader before)).finish = .ok s ↔
      (∀ t ∈ ts, t.isAnd = true → t.opens = 0) ∧ ∃ c cs, p.conjunct? seg = some c ∧
        List.Forall₂ (fun seg c => begin.conjunct? seg = some c) segs cs ∧
        s = ⟨before ++ c :: cs⟩ := by
  induction ts generalizing p before seg segs with
  | nil =>
    obtain ⟨rfl, rfl⟩ : [] = seg ∧ [] = segs := by simpa using hsplit
    simp [finish_reader, conjunct?_nil]
  | cons t ts ih =>
    obtain ⟨ht, hts⟩ := List.forall_mem_cons.mp hattached
    rw [List.foldl_cons, List.forall_mem_cons]
    obtain ⟨seg', segs', hrest⟩ := List.exists_cons_of_ne_nil (List.splitOnP_ne_nil Token.isAnd ts)
    rw [List.splitOnP_cons_eq_if_modifyHead, hrest] at hsplit
    by_cases hand : t.isAnd = true
    · rw [if_pos hand] at hsplit
      cases hsplit
      have hkind : t.kind = .binary .and := of_decide_eq_true hand
      by_cases hcomplete : ∃ c, p = complete c ∧ t.opens = 0
      · obtain ⟨c, rfl, hopens⟩ := hcomplete
        rw [read_and_complete c hkind hopens (ht.2 _ hkind), ih sound_begin hts hrest]
        constructor
        · rintro ⟨hands, c', cs, hseg, hsegs, rfl⟩
          exact ⟨⟨fun _ => hopens, hands⟩, c, c' :: cs, conjunct?_nil.mpr rfl, .cons hseg hsegs,
            by simp⟩
        · rintro ⟨⟨-, hands⟩, c₀, cs, hnil, hsegs, rfl⟩
          cases conjunct?_nil.mp hnil
          cases hsegs with
          | cons hseg hsegs => exact ⟨hands, _, _, hseg, hsegs, by simp⟩
      · have hdoomed : ((p.reader before).read t).Doomed :=
          doomed_read_and hsound hkind fun c hc hopens => hcomplete ⟨c, hc, hopens⟩
        refine ⟨fun h => absurd h (ClauseReader.finish_ne_ok_of_doomed hdoomed ts s), ?_⟩
        rintro ⟨⟨hopens, -⟩, c, cs, hnil, -, -⟩
        exact absurd ⟨c, conjunct?_nil.mp hnil, hopens hand⟩ hcomplete
    · rw [if_neg hand, List.modifyHead_cons] at hsplit
      cases hsplit
      have hread : Shows before (p.next? t) ((p.reader before).read t) :=
        read_reader hsound (fun h => hand (decide_eq_true h)) ht
      rw [conjunct?_cons]
      cases hnext : p.next? t with
      | none =>
        rw [hnext] at hread
        simp [ClauseReader.finish_ne_ok_of_doomed hread ts s]
      | some p' =>
        rw [hnext] at hread
        have hstep : (p.reader before).read t = p'.reader before := hread
        rw [hstep, ih (next?_sound hsound hnext) hts hrest]
        simp [hand]

end Phase
end Clausal
