import Mathlib
import Clausal.Formula
import Clausal.Proofs.Formula.Extraction

/-! # Conjunctions of conjuncts as formulas

The tokens of a conjunction of conjuncts use only propositional connectives
(`Token.Conjoined.outsideWord?_eq_none`), and close each parenthesis that they open
(`Token.Conjoined.parenFaults_eq_nil`).  A formula with such tokens therefore has the clauses of its
conjuncts (`Formula.toClauseSet_of_isConjunctive`). -/

namespace Clausal

namespace Token

variable {t : Token} {ts us seg : List Token}

/-! ### Parentheses -/

theorem depth_append (ts us : List Token) : depth (ts ++ us) = depth ts + depth us := by
  rw [depth, List.map_append, List.sum_append]
  rfl

theorem depth_eq_total (ts : List Token) :
    depth ts = (total Token.opens ts : ℤ) - total Token.closes ts := by
  induction ts with
  | nil => rfl
  | cons t ts ih =>
    rw [depth_cons, ih]
    simp only [total, List.foldr_cons]
    omega

theorem Bare.depth_singleton (h : t.Bare) : depth [t] = 0 := by
  rw [depth_cons, h.1, h.2]
  rfl

theorem IsConjunct.depth_eq_zero (h : IsConjunct seg) : depth seg = 0 := by
  cases h with
  | atom _ hbare => exact hbare.depth_singleton
  | @negation t u _ hbare _ hbare' =>
    rw [← List.singleton_append, depth_append, hbare.depth_singleton, hbare'.depth_singleton]
    rfl
  | span h => exact h.closed

theorem Conjoined.depth_eq_zero (h : Conjoined ts) : depth ts = 0 := by
  induction h with
  | single hseg => exact hseg.depth_eq_zero
  | @join seg ts t hseg _ hbare _ ih =>
    have hrest : depth (t :: ts) = depth [t] + depth ts := depth_append [t] ts
    rw [depth_append, hrest, hseg.depth_eq_zero, hbare.depth_singleton, ih]
    rfl

theorem Conjoined.parenFaults_eq_nil (h : Conjoined ts) : parenFaults ts = [] := by
  have hdepth := h.depth_eq_zero
  rw [depth_eq_total] at hdepth
  have htotal : total Token.opens ts = total Token.closes ts := by omega
  simp only [parenFaults, htotal, lt_self_iff_false, if_false]

/-! ### Connectives -/

theorem outsideWord?_of_kind
    (h : t.IsAtom ∨ t.kind = .unary .not ∨ t.kind = .binary .or) : t.kind.outsideWord? = none := by
  obtain ⟨a, h⟩ | h | h := h <;> rw [h] <;> rfl

theorem Conjoined.outsideWord?_eq_none (h : Conjoined ts) :
    ∀ t ∈ ts, t.kind.outsideWord? = none := by
  induction h with
  | single hseg => exact fun t ht => outsideWord?_of_kind (hseg.kinds t ht)
  | join hseg hand _ _ ih =>
    rw [List.forall_mem_append, List.forall_mem_cons]
    refine ⟨fun t ht => outsideWord?_of_kind (hseg.kinds t ht), ?_, ih⟩
    rw [kind_eq_and_of_isAnd hand]
    rfl

end Token

/-! ### Formulas -/

namespace Formula

variable {text : List Char} {f : Formula}

theorem faults_of_scan_ne_nil (h : Token.scan text ≠ []) :
    faults text = .ok (syntaxFaults (Token.scan text)) := by
  simp only [faults, h, if_false]

theorem parse_of_syntaxFaults (h : syntaxFaults (Token.scan text) = []) :
    parse text = .ok ⟨stripOuterParens text⟩ := by
  have hne : Token.scan text ≠ [] := by
    intro hnil
    rw [hnil] at h
    cases h
  rw [parse, faults_of_scan_ne_nil hne, h]

theorem isPropositional_of_isConjunctive
    (h : Token.IsConjunctive (Token.scan (stripOuterParens f.text))) :
    f.isPropositional = true := by
  have houtside : Clausal.outsideWords f.text = [] :=
    List.filterMap_eq_nil_iff.mpr h.conjoined.outsideWord?_eq_none
  rw [isPropositional, Clausal.isPropositional, houtside]
  rfl

/-- A formula that is a conjunction of conjuncts has their clauses. -/
theorem toClauseSet_of_isConjunctive
    (h : Token.IsConjunctive (Token.scan (stripOuterParens f.text))) :
    f.toClauseSet =
      .ok ⟨(Token.segments (Token.scan (stripOuterParens f.text))).map Token.clauseOf⟩ := by
  have hattached : ∀ t ∈ Token.scan (stripOuterParens f.text), t.Attached := fun t ht =>
    Token.attached_of_mem_scan ht
  have hread := (clausesOfTokens_eq_ok_iff hattached).mpr ⟨h, rfl⟩
  have hreading : f.reading = .ok (clausesOfText f.text) := by
    rw [reading, requireFragment, if_pos (isPropositional_of_isConjunctive h)]
    rfl
  rw [toClauseSet, hreading, clausesOfText, hread]

end Formula
end Clausal
