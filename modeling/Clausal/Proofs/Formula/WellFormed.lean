import Mathlib
import Clausal.Formula
import Clausal.Proofs.Formula.Spelling

/-! # The language of well-formed formulas

A word of a formula has a role, that of an atom or of a connective, and the roles follow each other
as in a regular language (`Role.alternation`).  The faults of a sequence of tokens agree with it:
there is none exactly if each token has a role and the sequence of the roles lies in the language
(`sequenceFaults_eq_nil_iff`).  So the texts without faults are those whose words spell such a
sequence and that have equally many parentheses of both kinds (`Formula.faults_classify`). -/

namespace Clausal

open scoped Computability

/-! ### Sequences of roles -/

/-- What a word contributes to the order of a formula. -/
inductive Role where
  /-- A connective that stands before a formula. -/
  | unary
  | atom
  /-- A connective that stands between two formulas. -/
  | binary
deriving DecidableEq

namespace Role

/-- An atom with the connectives that stand before it. -/
def operand : Language Role := ({[unary]} : Language Role)∗ * {[atom]}

/-- Any number of times a connective between formulas and the operand behind it. -/
def continuation : Language Role := (({[binary]} : Language Role) * operand)∗

/-- Operands with a connective between any two. -/
def alternation : Language Role := operand * continuation

variable {p q : Role} {ps : List Role}

theorem cons_mem_singleton_mul {L : Language Role} : p :: ps ∈ {[q]} * L ↔ p = q ∧ ps ∈ L := by
  rw [Language.mem_mul]
  constructor
  · rintro ⟨w, hw, rest, hrest, happend⟩
    obtain rfl : w = [q] := hw
    obtain ⟨rfl, rfl⟩ := List.cons.inj happend
    exact ⟨rfl, hrest⟩
  · rintro ⟨rfl, hps⟩
    exact ⟨[p], rfl, ps, hps, rfl⟩

theorem nil_not_mem_singleton_mul {L : Language Role} : [] ∉ {[q]} * L := by
  rw [Language.mem_mul]
  rintro ⟨w, hw, rest, -, happend⟩
  obtain rfl : w = [q] := hw
  cases happend

theorem alternation_eq : alternation = {[atom]} * continuation + {[unary]} * alternation := by
  have hstar : ({[unary]} : Language Role)∗ = 1 + {[unary]} * ({[unary]} : Language Role)∗ :=
    (Language.one_add_self_mul_kstar_eq_kstar _).symm
  calc alternation
      = ({[unary]} : Language Role)∗ * ({[atom]} * continuation) := mul_assoc _ _ _
    _ = (1 + {[unary]} * ({[unary]} : Language Role)∗) * ({[atom]} * continuation) := by
        rw [← hstar]
    _ = {[atom]} * continuation + {[unary]} * alternation := by
        rw [add_mul, one_mul, alternation, operand, mul_assoc, mul_assoc]

theorem continuation_eq : continuation = 1 + {[binary]} * alternation := by
  have hstar : continuation = 1 + {[binary]} * operand * continuation :=
    (Language.one_add_self_mul_kstar_eq_kstar _).symm
  rw [hstar, mul_assoc, ← alternation]

theorem nil_not_mem_alternation : [] ∉ alternation := by
  rw [alternation_eq, Language.mem_add]
  rintro (h | h) <;> exact nil_not_mem_singleton_mul h

theorem cons_mem_alternation :
    p :: ps ∈ alternation ↔ p = atom ∧ ps ∈ continuation ∨ p = unary ∧ ps ∈ alternation := by
  conv_lhs => rw [alternation_eq]
  rw [Language.mem_add, cons_mem_singleton_mul, cons_mem_singleton_mul]

theorem nil_mem_continuation : [] ∈ continuation := by
  rw [continuation_eq, Language.mem_add]
  exact .inl rfl

theorem cons_mem_continuation : p :: ps ∈ continuation ↔ p = binary ∧ ps ∈ alternation := by
  have hone : p :: ps ∉ (1 : Language Role) := by simp [Language.mem_one]
  rw [continuation_eq, Language.mem_add, or_iff_right hone, cons_mem_singleton_mul]

/-- The role of a token. -/
def ofKind? : Token.Kind → Option Role
  | .unary _ => some unary
  | .atom _ => some atom
  | .binary _ => some binary
  | .unknown _ => none
  | .parens => none

/-- What may follow the deciding term. -/
def after : Option Term → Language Role
  | some (.atom _) => continuation
  | _ => alternation

end Role

open Role

variable {previous : Option Term} {t : Token} {ts : List Token} {p : Role} {ps : List Role}

theorem nil_mem_after_iff : [] ∈ after previous ↔ sequenceFaults previous [] = [] := by
  cases previous with
  | none => simp [after, nil_not_mem_alternation, sequenceFaults]
  | some term =>
    cases term with
    | atom a => simp [after, nil_mem_continuation, sequenceFaults]
    | operator word => simp [after, nil_not_mem_alternation, sequenceFaults]

/-- A role in its place is that of a token without a fault, and leaves room for what follows it. -/
theorem cons_mem_after_iff (hp : ofKind? t.kind = some p) :
    p :: ps ∈ after previous ↔
      faultsAt previous t = [] ∧ ps ∈ after (Term.after previous t.kind) := by
  cases hkind : t.kind with
  | atom a =>
    obtain rfl : atom = p := by simpa [ofKind?, hkind] using hp
    rcases previous with _ | _ | _ <;>
      simp [after, Term.after, faultsAt, hkind, cons_mem_alternation, cons_mem_continuation]
  | unary op =>
    obtain rfl : unary = p := by simpa [ofKind?, hkind] using hp
    rcases previous with _ | _ | _ <;>
      simp [after, Term.after, faultsAt, hkind, cons_mem_alternation, cons_mem_continuation]
  | binary op =>
    obtain rfl : binary = p := by simpa [ofKind?, hkind] using hp
    rcases previous with _ | _ | _ <;>
      simp [after, Term.after, faultsAt, hkind, cons_mem_alternation, cons_mem_continuation]
  | unknown word => simp [ofKind?, hkind] at hp
  | parens => simp [ofKind?, hkind] at hp

theorem sequenceFaults_cons (previous : Option Term) (t : Token) (ts : List Token) :
    sequenceFaults previous (t :: ts) =
      faultsAt previous t ++ sequenceFaults (Term.after previous t.kind) ts := by
  rw [sequenceFaults]

/-- A token without a role always has a fault. -/
theorem faultsAt_ne_nil_of_ofKind? (h : ofKind? t.kind = none) : faultsAt previous t ≠ [] := by
  cases hkind : t.kind with
  | unknown word => cases previous <;> simp [faultsAt, hkind]
  | parens => simp [faultsAt, hkind]
  | atom a => simp [ofKind?, hkind] at h
  | unary op => simp [ofKind?, hkind] at h
  | binary op => simp [ofKind?, hkind] at h

/-- A sequence of tokens has no fault exactly if their roles alternate. -/
theorem sequenceFaults_eq_nil_iff :
    sequenceFaults previous ts = [] ↔
      ∃ ps, List.Forall₂ (fun t p => ofKind? t.kind = some p) ts ps ∧ ps ∈ after previous := by
  induction ts generalizing previous with
  | nil => simp [nil_mem_after_iff]
  | cons t ts ih =>
    rw [sequenceFaults_cons, List.append_eq_nil_iff, ih]
    constructor
    · rintro ⟨hfault, ps, hps, hafter⟩
      obtain ⟨p, hp⟩ : ∃ p, ofKind? t.kind = some p := by
        rw [← Option.ne_none_iff_exists']
        intro hnone
        exact faultsAt_ne_nil_of_ofKind? hnone hfault
      exact ⟨p :: ps, .cons hp hps, (cons_mem_after_iff hp).mpr ⟨hfault, hafter⟩⟩
    · rintro ⟨roles, hroles, hafter⟩
      cases hroles with
      | @cons _ p _ ps hp hps =>
        obtain ⟨hfault, hrest⟩ := (cons_mem_after_iff hp).mp hafter
        exact ⟨hfault, ps, hps, hrest⟩

/-! ### Words that spell a role -/

namespace Text

variable {c : Char} {text : List Char}

/-- A text is its part after the leading occurrences of a character, with these before it. -/
theorem exists_replicate_append_dropWhile (c : Char) (text : List Char) :
    ∃ m, text = List.replicate m c ++ text.dropWhile (· = c) := by
  refine ⟨(text.takeWhile (· = c)).length, ?_⟩
  have hlead : List.replicate (text.takeWhile (· = c)).length c = text.takeWhile (· = c) := by
    symm
    rw [List.eq_replicate_iff]
    refine ⟨rfl, fun d hd => ?_⟩
    simpa using List.mem_takeWhile_imp hd
  rw [hlead, List.takeWhile_append_dropWhile]

theorem exists_dropTrailing_append_replicate (c : Char) (text : List Char) :
    ∃ n, text = dropTrailing (· = c) text ++ List.replicate n c := by
  obtain ⟨n, hn⟩ := exists_replicate_append_dropWhile c text.reverse
  refine ⟨n, ?_⟩
  have hreverse := congrArg List.reverse hn
  rwa [List.reverse_reverse, List.reverse_append, List.reverse_replicate] at hreverse

end Text

namespace Token

variable {core : List Char}

/-- A word of letters is what is left of a word without the parentheses around it. -/
theorem ofWord_letters (hne : core ≠ []) (hcore : core.all Text.isAlphanumeric = true) (m n : ℕ) :
    ofWord (List.replicate m '(' ++ core ++ List.replicate n ')') =
      ⟨List.replicate m '(' ++ core ++ List.replicate n ')', m, n,
        kindOf (core ++ List.replicate n ')') core⟩ := by
  have hletter : ∀ c ∈ core, Text.isAlphanumeric c = true := List.all_eq_true.mp hcore
  apply ofWord_wrapped hne
  · rintro c hc rfl
    have hparen := hletter _ (List.mem_of_mem_head? hc)
    rw [Text.isAlphanumeric_eq_false (by simp)] at hparen
    cases hparen
  · rintro c hc rfl
    have hparen := hletter _ (List.mem_of_mem_getLast? hc)
    rw [Text.isAlphanumeric_eq_false (by simp)] at hparen
    cases hparen

theorem count_letters {c : Char} (hc : Text.isAlphanumeric c = false)
    (hcore : core.all Text.isAlphanumeric = true) : core.count c = 0 := by
  rw [List.count_eq_zero]
  intro hmem
  rw [List.all_eq_true.mp hcore c hmem] at hc
  cases hc

/-- The parentheses around a word of letters are all that it has. -/
theorem count_wrapped (hcore : core.all Text.isAlphanumeric = true) (m n : ℕ) :
    (List.replicate m '(' ++ core ++ List.replicate n ')').count '(' = m ∧
      (List.replicate m '(' ++ core ++ List.replicate n ')').count ')' = n := by
  have hleft : core.count '(' = 0 := count_letters (Text.isAlphanumeric_eq_false (by simp)) hcore
  have hright : core.count ')' = 0 := count_letters (Text.isAlphanumeric_eq_false (by simp)) hcore
  simp only [List.count_append, hleft, hright]
  constructor <;> simp [List.count_replicate]

end Token

namespace Role

/-- The word spells the role: an atom within parentheses, or a connective behind left ones. -/
inductive Spelled : List Char → Role → Prop
  | atom (m n : ℕ) (a : Atom) :
    Spelled (List.replicate m '(' ++ [a.name] ++ List.replicate n ')') atom
  | unary (m : ℕ) (op : Unary) : Spelled (List.replicate m '(' ++ op.word) unary
  | binary (m : ℕ) (op : Binary) : Spelled (List.replicate m '(' ++ op.word) binary

/-- What a spelled role is made of. -/
theorem Spelled.exists_letters {w : List Char} {r : Role} (h : Spelled w r) :
    ∃ m core n, w = List.replicate m '(' ++ core ++ List.replicate n ')' ∧ core ≠ [] ∧
      core.all Text.isAlphanumeric = true ∧
      ofKind? (Token.kindOf (core ++ List.replicate n ')') core) = some r := by
  cases h with
  | atom m n a =>
    refine ⟨m, [a.name], n, rfl, by simp, by simp [a.alphanumeric], ?_⟩
    simp [Token.kindOf, Atom.ofText?, ofKind?]
  | unary m op =>
    refine ⟨m, op.word, 0, by simp, ?_, ?_, ?_⟩ <;> cases op <;> decide
  | binary m op =>
    refine ⟨m, op.word, 0, by simp, ?_, ?_, ?_⟩ <;> cases op <;> decide

/-- A word spells a role exactly if its token has it. -/
theorem spelled_iff {w : List Char} {r : Role} :
    Spelled w r ↔ ofKind? (Token.ofWord w).kind = some r := by
  constructor
  · intro h
    obtain ⟨m, core, n, rfl, hne, hcore, hrole⟩ := h.exists_letters
    rwa [Token.ofWord_letters hne hcore]
  · intro h
    have hkind : (Token.ofWord w).kind =
        Token.kindOf (w.dropWhile (· = '(')) (Token.core w) := rfl
    obtain ⟨m, hleft⟩ := Text.exists_replicate_append_dropWhile '(' w
    obtain ⟨n, hright⟩ := Text.exists_dropTrailing_append_replicate ')' (w.dropWhile (· = '('))
    rw [hkind] at h
    obtain ⟨a, hatom, hcore⟩ | ⟨op, hunary, hcore, hbody⟩ | ⟨op, hbinary, hcore, hbody⟩ |
        ⟨u, hunknown⟩ | hparens := Token.kindOf_cases (w.dropWhile (· = '(')) (Token.core w)
    · obtain rfl : atom = r := by simpa [hatom, ofKind?] using h
      rw [hleft, hright, ← List.append_assoc]
      have hspelled := Spelled.atom m n a
      rwa [← hcore] at hspelled
    · obtain rfl : unary = r := by simpa [hunary, ofKind?] using h
      rw [hleft, ← hbody, hcore]
      exact .unary m op
    · obtain rfl : binary = r := by simpa [hbinary, ofKind?] using h
      rw [hleft, ← hbody, hcore]
      exact .binary m op
    · simp [hunknown, ofKind?] at h
    · simp [hparens, ofKind?] at h

theorem exists_spelled_of_mem {ws : List (List Char)} {roles : List Role} {w : List Char}
    (h : List.Forall₂ Spelled ws roles) (hw : w ∈ ws) : ∃ r, Spelled w r := by
  obtain ⟨k, hk, rfl⟩ := List.getElem_of_mem hw
  exact ⟨_, h.get hk (h.length_eq ▸ hk)⟩

theorem Spelled.count_parens {w : List Char} {r : Role} (h : Spelled w r) :
    w.count '(' = (Token.ofWord w).opens ∧ w.count ')' = (Token.ofWord w).closes := by
  obtain ⟨m, core, n, rfl, hne, hcore, -⟩ := h.exists_letters
  rw [Token.ofWord_letters hne hcore]
  exact Token.count_wrapped hcore m n

end Role

/-! ### Whole texts -/

theorem Token.total_eq_sum (count : Token → ℕ) (ts : List Token) :
    total count ts = (ts.map count).sum := by
  rw [total, List.sum_eq_foldr, List.foldr_map]

theorem parenFaults_eq_nil_iff :
    parenFaults ts = [] ↔ Token.total Token.opens ts = Token.total Token.closes ts := by
  unfold parenFaults
  dsimp only
  split_ifs <;> simp <;> omega

namespace Formula

/-- The words of the text spell operands and connectives in alternation, and there are equally many
parentheses of both kinds. -/
structure IsWellFormed (text : List Char) : Prop where
  alternates : ∃ roles, List.Forall₂ Role.Spelled (Text.words text) roles ∧
    roles ∈ Role.alternation
  parens : text.count '(' = text.count ')'

variable {text : List Char} {roles : List Role}

theorem spelled_words_iff :
    List.Forall₂ Role.Spelled (Text.words text) roles ↔
      List.Forall₂ (fun t r => Role.ofKind? t.kind = some r) (Token.scan text) roles := by
  rw [Token.scan, List.forall₂_map_left_iff]
  simp only [← Role.spelled_iff]

/-- Words that spell roles have no parentheses but those that their tokens count. -/
theorem total_parens (h : List.Forall₂ Role.Spelled (Text.words text) roles) :
    Token.total Token.opens (Token.scan text) = text.count '(' ∧
      Token.total Token.closes (Token.scan text) = text.count ')' := by
  have hcount : ∀ w ∈ Text.words text,
      (Token.ofWord w).opens = w.count '(' ∧ (Token.ofWord w).closes = w.count ')' := by
    intro w hw
    obtain ⟨r, hspelled⟩ := Role.exists_spelled_of_mem h hw
    obtain ⟨hleft, hright⟩ := hspelled.count_parens
    exact ⟨hleft.symm, hright.symm⟩
  rw [Token.total_eq_sum, Token.total_eq_sum, Token.scan, List.map_map, List.map_map,
    ← Text.sum_count_words (by decide), ← Text.sum_count_words (by decide)]
  constructor
  · exact congrArg List.sum (List.map_congr_left fun w hw => (hcount w hw).1)
  · exact congrArg List.sum (List.map_congr_left fun w hw => (hcount w hw).2)

theorem isWellFormed_iff :
    IsWellFormed text ↔
      sequenceFaults none (Token.scan text) = [] ∧ text.count '(' = text.count ')' := by
  constructor
  · rintro ⟨⟨roles, hspelled, hmem⟩, hparens⟩
    exact ⟨sequenceFaults_eq_nil_iff.mpr ⟨roles, spelled_words_iff.mp hspelled, hmem⟩, hparens⟩
  · rintro ⟨hfaults, hparens⟩
    obtain ⟨roles, hroles, hmem⟩ := sequenceFaults_eq_nil_iff.mp hfaults
    exact ⟨⟨roles, spelled_words_iff.mpr hroles, hmem⟩, hparens⟩

theorem syntaxFaults_eq_nil_iff : syntaxFaults (Token.scan text) = [] ↔ IsWellFormed text := by
  rw [syntaxFaults, List.append_eq_nil_iff, isWellFormed_iff, parenFaults_eq_nil_iff]
  refine and_congr_right fun hfaults => ?_
  obtain ⟨roles, hroles, -⟩ := sequenceFaults_eq_nil_iff.mp hfaults
  obtain ⟨hleft, hright⟩ := total_parens (spelled_words_iff.mpr hroles)
  rw [hleft, hright]

/-- Only a text without words is called empty.  Of the others exactly the well-formed ones have no
fault, and any other text has at least one. -/
theorem faults_classify (text : List Char) :
    (faults text = .error .empty ↔ Text.words text = []) ∧
    (faults text = .ok [] ↔ IsWellFormed text) ∧
    ((∃ found, found ≠ [] ∧ faults text = .ok found) ↔
      Text.words text ≠ [] ∧ ¬ IsWellFormed text) := by
  have hscan : Token.scan text = [] ↔ Text.words text = [] := List.map_eq_nil_iff
  rw [← syntaxFaults_eq_nil_iff, Ne, ← hscan]
  unfold faults
  dsimp only
  by_cases hwords : Token.scan text = []
  · have hfaults : syntaxFaults [] ≠ [] := by decide
    simp [hwords, hfaults]
  · simp [hwords]

-- the parentheses are counted, not matched
example : faults "A) or (B".toList = .ok [] := by decide +kernel

end Formula

end Clausal
