import Mathlib
import Clausal.Interpretation
import Clausal.Proofs.Formula.Symbol

/-! # Infix formulas

The standard reading of propositional formulas: `not` binds tightest, then `and`, `or`, `implies`
and `equivalent` in this order, and parentheses may stand around any formula (`Reads`).  How a
chain of one connective is grouped is left open, so whatever holds of every reading holds for
grouping to the left and to the right alike.  Every reading is balanced (`Reads.closes`), and a
formula that is balanced without its outer parentheses is also read without them
(`Reads.of_wraps`). -/

namespace Clausal

/-! ### Depth -/

namespace Symbol

variable {d e : ℤ} {x : Symbol} {us vs ws outer inner : List Symbol} {n : ℕ}

/-- By how much a symbol raises the depth. -/
def rise : Symbol → ℤ
  | left => 1
  | right => -1
  | word _ => 0

/-- The left parentheses less the right ones. -/
def depth (ws : List Symbol) : ℤ := (ws.map rise).sum

@[simp]
theorem depth_nil : depth [] = 0 := rfl

@[simp]
theorem depth_cons (x : Symbol) (ws : List Symbol) : depth (x :: ws) = x.rise + depth ws :=
  List.sum_cons

@[simp]
theorem depth_append (us vs : List Symbol) : depth (us ++ vs) = depth us + depth vs := by
  rw [depth, List.map_append, List.sum_append]
  rfl

/-- From depth `d` on, no parenthesis is closed that was not opened, and all are closed at the
end. -/
structure Closes (d : ℤ) (ws : List Symbol) : Prop where
  nonneg : ∀ p, p <+: ws → 0 ≤ d + depth p
  closed : d + depth ws = 0

theorem closes_nil : Closes d [] ↔ d = 0 := by
  constructor
  · intro h
    simpa using h.closed
  · rintro rfl
    refine ⟨?_, rfl⟩
    intro p hp
    rw [List.prefix_nil.mp hp, depth_nil, add_zero]

theorem closes_cons : Closes d (x :: ws) ↔ 0 ≤ d ∧ Closes (d + x.rise) ws := by
  constructor
  · intro h
    have hd : 0 ≤ d := by simpa using h.nonneg [] List.nil_prefix
    have hnonneg : ∀ p, p <+: ws → 0 ≤ d + x.rise + depth p := by
      intro p hp
      have := h.nonneg (x :: p) ((List.prefix_cons_inj x).mpr hp)
      rwa [depth_cons, ← add_assoc] at this
    have hclosed : d + x.rise + depth ws = 0 := by
      have := h.closed
      rwa [depth_cons, ← add_assoc] at this
    exact ⟨hd, hnonneg, hclosed⟩
  · rintro ⟨hd, h⟩
    have hnonneg : ∀ p, p <+: x :: ws → 0 ≤ d + depth p := by
      intro p hp
      obtain rfl | ⟨q, rfl, hq⟩ := List.prefix_cons_iff.mp hp
      · simpa using hd
      · rw [depth_cons, ← add_assoc]
        exact h.nonneg q hq
    have hclosed : d + depth (x :: ws) = 0 := by
      rw [depth_cons, ← add_assoc]
      exact h.closed
    exact ⟨hnonneg, hclosed⟩

theorem closes_word_cons {w : List Char} : Closes d (word w :: ws) ↔ 0 ≤ d ∧ Closes d ws := by
  rw [closes_cons, rise, add_zero]

theorem Closes.depth_nonneg (h : Closes d ws) : 0 ≤ d := by
  simpa using h.nonneg [] List.nil_prefix

theorem Closes.append (hu : Closes d us) (hv : Closes e vs) : Closes (d + e) (us ++ vs) := by
  induction us generalizing d with
  | nil =>
    rw [closes_nil.mp hu, zero_add]
    exact hv
  | cons x us ih =>
    obtain ⟨hd, hu⟩ := closes_cons.mp hu
    have hnonneg := hv.depth_nonneg
    rw [List.cons_append, closes_cons, add_right_comm]
    exact ⟨by omega, ih hu⟩

theorem Closes.paren (h : Closes 0 ws) : Closes 0 (left :: (ws ++ [right])) := by
  have hright : Closes 1 [right] := closes_cons.mpr ⟨zero_le_one, closes_nil.mpr rfl⟩
  refine closes_cons.mpr ⟨le_rfl, ?_⟩
  exact h.append hright

theorem Wraps.closes (h : Wraps n outer inner) (hinner : Closes 0 inner) : Closes 0 outer := by
  induction n generalizing outer with
  | zero => rwa [Wraps.zero_iff.mp h]
  | succ n ih =>
    obtain ⟨middle, rfl, hmiddle⟩ := Wraps.succ_iff.mp h
    exact (ih hmiddle).paren

end Symbol

/-! ### Formulas and their readings -/

/-- A propositional connective between two formulas. -/
inductive Junctor where
  | and
  | or
  | implies
  | equivalent
deriving DecidableEq

namespace Junctor

/-- The connective among those of the input language. -/
def toBinary : Junctor → Binary
  | and => .and
  | or => .or
  | implies => .implies
  | equivalent => .equivalent

/-- How loosely the connective binds. -/
def level : Junctor → ℕ
  | and => 1
  | or => 2
  | implies => 3
  | equivalent => 4

/-- The truth table. -/
def apply : Junctor → Bool → Bool → Bool
  | and, p, q => p && q
  | or, p, q => p || q
  | implies, p, q => !p || q
  | equivalent, p, q => p == q

end Junctor

/-- A propositional formula. -/
inductive Expr where
  | atom (a : Atom)
  | not (e : Expr)
  | binary (op : Junctor) (e f : Expr)

/-- The truth value of a formula; an atom without a value counts as false. -/
def Expr.eval (i : Interpretation) : Expr → Bool
  | atom a => i.get? a = some true
  | not e => !e.eval i
  | binary op e f => op.apply (e.eval i) (f.eval i)

namespace Symbol

/-- The symbol of an atom. -/
def atom (a : Atom) : Symbol := word [a.name]

/-- The symbol of a negation. -/
def not : Symbol := word Unary.not.word

/-- The symbol of a connective. -/
def junctor (op : Junctor) : Symbol := word op.toBinary.word

end Symbol

/-- The symbols are read as the formula, in which no connective outside parentheses binds more
loosely than the level allows. -/
inductive Reads : ℕ → List Symbol → Expr → Prop
  | atom (a : Atom) : Reads 0 [.atom a] (.atom a)
  | paren {n : ℕ} {ws : List Symbol} {e : Expr} :
    Reads n ws e → Reads 0 (.left :: (ws ++ [.right])) e
  | not {ws : List Symbol} {e : Expr} : Reads 0 ws e → Reads 0 (.not :: ws) (.not e)
  | binary (op : Junctor) {us vs : List Symbol} {e f : Expr} :
    Reads op.level us e → Reads op.level vs f →
      Reads op.level (us ++ .junctor op :: vs) (.binary op e f)
  | weaken {m n : ℕ} {ws : List Symbol} {e : Expr} : Reads m ws e → m ≤ n → Reads n ws e

namespace Reads

variable {n k : ℕ} {ws outer inner : List Symbol} {e : Expr}

/-- The parentheses of a formula match. -/
theorem closes (h : Reads n ws e) : Symbol.Closes 0 ws := by
  induction h with
  | atom a => exact Symbol.closes_word_cons.mpr ⟨le_rfl, Symbol.closes_nil.mpr rfl⟩
  | paren _ ih => exact ih.paren
  | not _ ih => exact Symbol.closes_word_cons.mpr ⟨le_rfl, ih⟩
  | binary op _ _ ihe ihf => exact ihe.append (Symbol.closes_word_cons.mpr ⟨le_rfl, ihf⟩)
  | weaken _ _ ih => exact ih

/-- Parentheses that match each other at both ends of a formula can be taken away. -/
theorem of_paren (h : Reads n (.left :: (ws ++ [.right])) e) (hws : Symbol.Closes 0 ws) :
    ∃ m, Reads m ws e := by
  generalize houter : Symbol.left :: (ws ++ [Symbol.right]) = outer at h
  induction h with
  | atom a => cases houter
  | paren h _ =>
    obtain rfl := List.append_cancel_right (List.cons.inj houter).2
    exact ⟨_, h⟩
  | not _ _ => cases houter
  | @binary op us vs e f he hf _ _ =>
    -- the left operand would contain the first parenthesis but not the last
    exfalso
    cases us with
    | nil => cases houter
    | cons x us =>
      rw [List.cons_append] at houter
      obtain ⟨rfl, hrest⟩ := List.cons.inj houter
      have hlength : us.length ≤ ws.length := by
        have := congrArg List.length hrest
        simp only [List.length_append, List.length_cons, List.length_nil] at this
        omega
      have hprefix : us <+: ws :=
        List.prefix_of_prefix_length_le ⟨_, hrest.symm⟩ (List.prefix_append ws _) hlength
      have hnonneg : 0 ≤ 0 + Symbol.depth us := hws.nonneg us hprefix
      have hclosed : 0 + (1 + Symbol.depth us) = 0 := he.closes.closed
      omega
  | weaken _ _ ih => exact ih houter

/-- A formula is read without parentheses that wrap it as well. -/
theorem of_wraps (h : Reads n outer e) (hwraps : Symbol.Wraps k outer inner)
    (hinner : Symbol.Closes 0 inner) : ∃ m, Reads m inner e := by
  induction k generalizing n outer with
  | zero => exact ⟨n, Symbol.Wraps.zero_iff.mp hwraps ▸ h⟩
  | succ k ih =>
    obtain ⟨middle, rfl, hmiddle⟩ := Symbol.Wraps.succ_iff.mp hwraps
    obtain ⟨m, hm⟩ := h.of_paren (hmiddle.closes hinner)
    exact ih hm hmiddle

end Reads
end Clausal
