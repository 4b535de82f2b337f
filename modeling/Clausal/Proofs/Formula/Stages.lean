import Mathlib
import Clausal.Proofs.Formula.Accepted
import Clausal.Proofs.Repeats

/-! # The stages of a text

A text is empty, malformed or accepted as a formula; a formula uses temporal connectives, is not a
conjunction of clauses, or has clauses.  The stages read the text with fewer and fewer parentheses
around it, but they all see the same kinds of tokens (`Token.kinds`).  So the words that are
disallowed are the temporal connectives of the text (`Formula.IsWellFormed.outsideWords_eq`), and
the clauses, none of which is empty (`Token.IsConjunct.literals_ne_nil`), have the atoms of the text
in order (`Formula.atoms_clauses`).  What a text comes to is told by `Formula.parse_stages`. -/

namespace Clausal

namespace Token

variable {t : Token} {ts seg : List Token} {d : ℤ} {negated negating : Bool}

namespace Kind

/-- Whether this is a temporal connective. -/
def isTemporal (k : Kind) : Bool :=
  k ∈ [unary .always, unary .eventually, unary .next, binary .until]

/-- Of the kinds that have a role, the temporal connectives lie outside the fragment. -/
theorem outsideWord?_of_role {k : Kind} {r : Role} (h : Role.ofKind? k = some r) :
    k.outsideWord? = if k.isTemporal then some k.word else none := by
  cases k with
  | atom a => rfl
  | unary op => cases op <;> rfl
  | binary op => cases op <;> rfl
  | unknown w => cases h
  | parens => cases h

end Kind

/-! ### The atoms of clauses -/

theorem atoms_literals : (literals negated ts).map (·.atom) = ts.filterMap (·.kind.atom?) := by
  induction ts generalizing negated with
  | nil => rfl
  | cons t ts ih =>
    rw [List.filterMap_cons, literals]
    cases t.kind with
    | atom a => exact congrArg (a :: ·) ih
    | unary | binary | unknown | parens => exact ih

/-- The `and`s between the pieces are no atoms. -/
theorem flatMap_segments_atoms (ts : List Token) :
    (segments ts).flatMap (·.filterMap (·.kind.atom?)) = ts.filterMap (·.kind.atom?) := by
  induction ts using segments_induction with
  | single seg hseg => rw [segments_single hseg, List.flatMap_singleton]
  | join seg t ts hseg hand ih =>
    have hatom : t.kind.atom? = none := by
      rw [kind_eq_and_of_isAnd hand]
      rfl
    have hskip : (t :: ts).filterMap (·.kind.atom?) = ts.filterMap (·.kind.atom?) :=
      List.filterMap_cons_none hatom
    rw [segments_join hseg hand, List.flatMap_cons, ih, List.filterMap_append, hskip]

/-- The clauses of the pieces have the atoms of all tokens, in the order of these. -/
theorem atoms_map_clauseOf (ts : List Token) :
    ClauseSet.atoms ⟨(segments ts).map clauseOf⟩ =
      OrderedSet.ofList (ts.filterMap (·.kind.atom?)) := by
  have hechoes : Echoes Eq []
      (((segments ts).flatMap fun seg => (OrderedSet.ofList (literals false seg)).toList).map
        (·.atom)) (((segments ts).flatMap (literals false)).map (·.atom)) :=
    (Echoes.flatMap_toList_ofList [] (literals false) (segments ts)).map fun _ _ h =>
      congrArg Literal.atom h
  have hatoms : ((segments ts).flatMap (literals false)).map (·.atom) =
      ts.filterMap (·.kind.atom?) := by
    rw [← flatMap_segments_atoms, List.map_flatMap]
    exact List.flatMap_congr fun seg _ => atoms_literals
  rw [← hatoms, hechoes.ofList_eq, ClauseSet.atoms, ClauseSet.literals, List.flatMap_map]
  rfl

/-! ### Conjuncts have literals -/

/-- Among the tokens of a conjunct only an atom closes parentheses. -/
theorem literals_cons_ne_nil (ht : t.Attached)
    (hkind : t.IsAtom ∨ t.kind = .unary .not ∨ t.kind = .binary .or)
    (hrest : t.closes = 0 → literals (t.kind = .unary .not) ts ≠ []) :
    literals negated (t :: ts) ≠ [] := by
  rw [literals]
  obtain ⟨a, hkind⟩ | hkind | hkind := hkind
  · rw [hkind]
    exact List.cons_ne_nil _ _
  · rw [hkind] at hrest ⊢
    exact hrest (ht.1 _ hkind)
  · rw [hkind] at hrest ⊢
    exact hrest (ht.2 _ hkind)

theorem SpanFrom.literals_ne_nil (h : SpanFrom d negating ts) (hattached : ∀ t ∈ ts, t.Attached)
    (hd : 0 < d) : literals negated ts ≠ [] := by
  induction ts generalizing d negated negating with
  | nil => exact absurd (spanFrom_nil.mp h).1 hd.ne'
  | cons t ts ih =>
    obtain ⟨ht, hts⟩ := List.forall_mem_cons.mp hattached
    obtain ⟨-, hkind, -, hrest⟩ := spanFrom_cons.mp h
    exact literals_cons_ne_nil ht hkind fun hcloses => ih hrest hts (by omega)

theorem IsSpan.literals_ne_nil (h : IsSpan seg) (hattached : ∀ t ∈ seg, t.Attached) :
    literals false seg ≠ [] := by
  cases seg with
  | nil => exact absurd (.span h) not_isConjunct_nil
  | cons t ts =>
    obtain ⟨ht, hts⟩ := List.forall_mem_cons.mp hattached
    obtain ⟨hopens, hkind, hrest⟩ := isSpan_cons.mp h
    exact literals_cons_ne_nil ht hkind fun hcloses => hrest.literals_ne_nil hts (by omega)

theorem IsConjunct.literals_ne_nil (h : IsConjunct seg) (hattached : ∀ t ∈ seg, t.Attached) :
    literals false seg ≠ [] := by
  cases h with
  | atom hatom _ =>
    obtain ⟨a, hkind⟩ := hatom
    simp [literals, hkind]
  | negation hnot _ hatom _ =>
    obtain ⟨a, hkind⟩ := hatom
    simp [literals, hnot, hkind]
  | span h => exact h.literals_ne_nil hattached

end Token

/-! ### What a formula comes to -/

namespace Formula

variable {text : List Char} {f : Formula} {s : ClauseSet}

/-- The words of the temporal connectives of a text, in order. -/
def temporalWords (text : List Char) : List (List Char) :=
  ((Token.scan text).filter (·.kind.isTemporal)).map (·.kind.word)

/-- The distinct atoms of a text, in the order in which they first appear. -/
def atoms (text : List Char) : OrderedSet Atom :=
  OrderedSet.ofList ((Token.scan text).filterMap (·.kind.atom?))

/-- There are clauses, each has literals and repeats none, and their atoms are those of the text. -/
structure Covers (s : ClauseSet) (text : List Char) : Prop where
  clauses_ne_nil : s.clauses ≠ []
  literals : ∀ c ∈ s.clauses, c.literals.toList ≠ [] ∧ c.literals.toList.Nodup
  atoms_eq : s.atoms = atoms text

/-- A formula is disallowed exactly for the temporal connectives of its text.  Without any, there
are violations of conjunctive normal form or clauses that cover the text. -/
structure Staged (f : Formula) (text : List Char) : Prop where
  notPropositional_iff : (∃ ws, f.toClauseSet = .error (.notPropositional ws)) ↔
    ∃ t ∈ Token.scan text, t.kind.isTemporal = true
  words : ∀ ws, f.toClauseSet = .error (.notPropositional ws) →
    ws ≠ [] ∧ ws = temporalWords text
  propositional : (∀ t ∈ Token.scan text, t.kind.isTemporal = false) →
    (∃ found, found ≠ [] ∧ f.toClauseSet = .error (.notConjunctive found)) ∨
      ∃ s, f.toClauseSet = .ok s ∧ Covers s text

theorem temporalWords_eq_nil_iff :
    temporalWords text = [] ↔ ∀ t ∈ Token.scan text, t.kind.isTemporal = false := by
  simp [temporalWords]

theorem IsWellFormed.exists_role (h : IsWellFormed text) {t : Token} (ht : t ∈ Token.scan text) :
    ∃ r, Role.ofKind? t.kind = some r := by
  obtain ⟨roles, hroles, -⟩ := h.alternates
  obtain ⟨w, hw, rfl⟩ := List.mem_map.mp ht
  obtain ⟨r, hspelled⟩ := Role.exists_spelled_of_mem hroles hw
  exact ⟨r, Role.spelled_iff.mp hspelled⟩

/-- The words outside the fragment are the temporal connectives, as there are no unknown words. -/
theorem IsWellFormed.outsideWords_eq (h : IsWellFormed text) :
    Clausal.outsideWords text = temporalWords text := by
  have hkinds : Clausal.outsideWords text =
      (Token.kinds (stripOuterParens text)).filterMap Token.Kind.outsideWord? := by
    rw [Token.kinds, List.filterMap_map]
    rfl
  rw [hkinds, h.kinds_stripOuterParens, Token.kinds, List.filterMap_map, temporalWords,
    ← List.filterMap_eq_map, List.filterMap_filter]
  refine List.filterMap_congr fun t ht => ?_
  obtain ⟨r, hr⟩ := h.exists_role ht
  exact Token.Kind.outsideWord?_of_role hr

theorem covers_of_clausesOfText (h : IsWellFormed text) (hread : clausesOfText text = .ok s) :
    Covers s text := by
  have hattached : ∀ t ∈ Token.scan (stripOuterParens text), t.Attached := fun t ht =>
    Token.attached_of_mem_scan ht
  obtain ⟨hconjunctive, rfl⟩ := (clausesOfTokens_eq_ok_iff hattached).mp hread
  refine ⟨?_, ?_, ?_⟩
  · rw [Ne, List.map_eq_nil_iff]
    exact List.splitOnP_ne_nil _ _
  · refine List.forall_mem_map.mpr fun seg hseg => ⟨?_, OrderedSet.nodup _⟩
    have hne := (hconjunctive.conjuncts seg hseg).literals_ne_nil fun t ht =>
      hattached t (Token.mem_of_mem_segments hseg ht)
    obtain ⟨l, hl⟩ := List.exists_mem_of_ne_nil _ hne
    exact List.ne_nil_of_mem (Clause.mem_ofList.mpr hl)
  · have hkinds := congrArg (List.filterMap Token.Kind.atom?) h.kinds_stripOuterParens
    rw [Token.kinds, Token.kinds, List.filterMap_map, List.filterMap_map] at hkinds
    rw [Token.atoms_map_clauseOf, atoms]
    exact congrArg _ hkinds

theorem outsideWords_of_parse (h : parse text = .ok f) : f.outsideWords = temporalWords text :=
  (represents_of_parse h).outsideWords_eq.trans (isWellFormed_of_parse h).outsideWords_eq

theorem isPropositional_iff_of_parse (h : parse text = .ok f) :
    f.isPropositional = true ↔ temporalWords text = [] := by
  rw [← outsideWords_of_parse h, isPropositional, Clausal.isPropositional, List.isEmpty_iff]
  rfl

/-- The failure of a formula that is not propositional. -/
theorem toClauseSet_of_not_propositional (h : f.isPropositional = false) :
    f.toClauseSet = .error (.notPropositional f.outsideWords) := by
  rw [toClauseSet, reading, requireFragment, h]
  rfl

theorem toClauseSet_of_propositional (h : parse text = .ok f) (hf : f.isPropositional = true) :
    (∃ found, found ≠ [] ∧ f.toClauseSet = .error (.notConjunctive found)) ∨
      ∃ s, f.toClauseSet = .ok s ∧ Covers s text := by
  have hanswers := represents_of_parse h
  have hreading := hanswers.reading_eq (hanswers.isPropositional_eq ▸ hf)
  rw [toClauseSet, hreading]
  obtain ⟨s, hs⟩ | ⟨found, hne, hfound⟩ :=
    clausesOfTokens_eq_ok_or_error (Token.scan (stripOuterParens text))
  · have hread : clausesOfText text = .ok s := hs
    rw [hread]
    exact .inr ⟨s, rfl, covers_of_clausesOfText (isWellFormed_of_parse h) hread⟩
  · have hread : clausesOfText text = .error found := hfound
    rw [hread]
    exact .inl ⟨found, hne, rfl⟩

theorem staged_of_parse (h : parse text = .ok f) : f.Staged text := by
  have hpropositional := isPropositional_iff_of_parse h
  by_cases htemporal : temporalWords text = []
  · have hclauses := toClauseSet_of_propositional h (hpropositional.mpr htemporal)
    have hnot : ∀ ws, f.toClauseSet ≠ .error (.notPropositional ws) := by
      obtain ⟨found, -, hfound⟩ | ⟨s, hs, -⟩ := hclauses
      · simp [hfound]
      · simp [hs]
    have hnone := temporalWords_eq_nil_iff.mp htemporal
    refine ⟨⟨?_, ?_⟩, fun ws hws => absurd hws (hnot ws), fun _ => hclauses⟩
    · rintro ⟨ws, hws⟩
      exact absurd hws (hnot ws)
    · rintro ⟨t, ht, hkind⟩
      rw [hnone t ht] at hkind
      cases hkind
  · have hfragment : f.isPropositional = false :=
      Bool.eq_false_iff.mpr fun hf => htemporal (hpropositional.mp hf)
    have hfails := toClauseSet_of_not_propositional hfragment
    rw [outsideWords_of_parse h] at hfails
    refine ⟨iff_of_true ⟨_, hfails⟩ ?_, fun ws hws => ?_, fun hnone => ?_⟩
    · by_contra hnone
      refine htemporal (temporalWords_eq_nil_iff.mpr fun t ht => ?_)
      exact Bool.eq_false_iff.mpr fun hkind => hnone ⟨t, ht, hkind⟩
    · rw [hfails] at hws
      cases hws
      exact ⟨htemporal, rfl⟩
    · exact absurd (temporalWords_eq_nil_iff.mpr hnone) htemporal

theorem parse_of_words_eq_nil (h : Text.words text = []) : parse text = .error .empty := by
  have hscan : Token.scan text = [] := List.map_eq_nil_iff.mpr h
  simp only [parse, faults, hscan, if_true]

theorem parse_of_words_ne_nil (h : Text.words text ≠ []) :
    (∃ found, found ≠ [] ∧ parse text = .error (.malformed found)) ∨ ∃ f, parse text = .ok f := by
  have hscan : Token.scan text ≠ [] := fun hnil => h (List.map_eq_nil_iff.mp hnil)
  rw [parse, faults_of_scan_ne_nil hscan]
  cases syntaxFaults (Token.scan text) with
  | nil => exact .inr ⟨_, rfl⟩
  | cons fault more => exact .inl ⟨_, List.cons_ne_nil fault more, rfl⟩

/-- Only a text without words is empty; any other is malformed, with at least one fault, or becomes
a formula, which goes through the stages. -/
theorem parse_stages (text : List Char) :
    (parse text = .error .empty ↔ Text.words text = []) ∧
    (parse text = .error .empty ∨
      (∃ found, found ≠ [] ∧ parse text = .error (.malformed found)) ∨
      ∃ f, parse text = .ok f) ∧
    ∀ f, parse text = .ok f → f.Staged text := by
  refine ⟨⟨fun hempty => ?_, parse_of_words_eq_nil⟩, ?_, fun f => staged_of_parse⟩
  · by_contra hwords
    obtain ⟨found, -, hparse⟩ | ⟨f, hparse⟩ := parse_of_words_ne_nil hwords <;>
      simp [hparse] at hempty
  · by_cases hwords : Text.words text = []
    · exact .inl (parse_of_words_eq_nil hwords)
    · exact .inr (parse_of_words_ne_nil hwords)

end Formula

end Clausal
