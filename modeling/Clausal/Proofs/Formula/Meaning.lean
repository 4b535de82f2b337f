import Mathlib
import Clausal.Proofs.Formula.Infix
import Clausal.Proofs.Satisfaction

/-! # The meaning of flat formulas

A formula is flat if its `and`s stand outside all parentheses, its `or`s within some, and every
`not` right before an atom (`Symbol.Flat`).  Then parentheses may be forgotten: the formula holds
exactly if every piece between its `and`s has a true literal (`Reads.eval_iff`). -/

namespace Clausal

namespace Symbol

variable {d : ℤ} {x : Symbol} {us vs ws rest : List Symbol} {w : List Char} {op : Junctor}
  {i : Interpretation}

theorem length_word_ne_one (op : Junctor) : op.toBinary.word.length ≠ 1 := by
  cases op <;> decide

theorem atom_ne_left (a : Atom) : atom a ≠ left := nofun

theorem atom_ne_right (a : Atom) : atom a ≠ right := nofun

theorem atom_ne_not (a : Atom) : atom a ≠ not := by
  intro h
  have hlength : 1 = Unary.not.word.length := congrArg List.length (word.inj h)
  exact absurd hlength (by decide)

theorem atom_ne_junctor (a : Atom) (op : Junctor) : atom a ≠ junctor op := by
  intro h
  have hlength := congrArg List.length (word.inj h)
  exact length_word_ne_one op hlength.symm

theorem not_ne_junctor (op : Junctor) : not ≠ junctor op := by
  intro h
  have hword : Unary.not.word = op.toBinary.word := word.inj h
  cases op <;> exact absurd hword (by decide)

theorem atom_inj {a b : Atom} (h : atom a = atom b) : a = b := by
  have hname : Atom.ofChar? a.name = Atom.ofChar? b.name :=
    congrArg Atom.ofChar? (List.cons.inj (word.inj h)).1
  rwa [Atom.ofChar?_name, Atom.ofChar?_name, Option.some.injEq] at hname

theorem junctor_inj {op op' : Junctor} (h : junctor op = junctor op') : op = op' := by
  have hword : Binary.ofWord? op'.toBinary.word = some op.toBinary :=
    Binary.ofWord?_eq_some_iff.mpr (word.inj h)
  rw [Binary.ofWord?_eq_some_iff.mpr rfl, Option.some.injEq] at hword
  cases op <;> cases op' <;> first | rfl | cases hword

/-! ### Flat formulas -/

/-- A symbol that may stand at depth `d` in a flat formula, followed by the given symbols. -/
inductive InPlace : ℤ → Symbol → List Symbol → Prop
  | left {d : ℤ} {rest : List Symbol} : InPlace d left rest
  | right {d : ℤ} {rest : List Symbol} : InPlace d right rest
  | atom {d : ℤ} {rest : List Symbol} (a : Atom) : InPlace d (atom a) rest
  | not {d : ℤ} {rest : List Symbol} (a : Atom) : InPlace d Symbol.not (Symbol.atom a :: rest)
  | or {d : ℤ} {rest : List Symbol} : 0 < d → InPlace d (junctor .or) rest
  | and {rest : List Symbol} : InPlace 0 (junctor .and) rest

/-- Every symbol is in its place, if the first one has depth `d`. -/
def Flat (d : ℤ) (ws : List Symbol) : Prop :=
  ∀ before x after, ws = before ++ x :: after → InPlace (d + depth before) x after

theorem InPlace.of_not (h : InPlace d Symbol.not rest) :
    ∃ a more, rest = Symbol.atom a :: more := by
  generalize hx : Symbol.not = x at h
  cases h with
  | left => cases hx
  | right => cases hx
  | atom a => exact absurd hx.symm (atom_ne_not a)
  | not a => exact ⟨a, _, rfl⟩
  | or _ => exact absurd hx (not_ne_junctor _)
  | and => exact absurd hx (not_ne_junctor _)

theorem InPlace.of_junctor (h : InPlace d (junctor op) rest) :
    op = .or ∧ 0 < d ∨ op = .and ∧ d = 0 := by
  generalize hx : junctor op = x at h
  cases h with
  | left => cases hx
  | right => cases hx
  | atom a => exact absurd hx.symm (atom_ne_junctor a op)
  | not a => exact absurd hx.symm (not_ne_junctor op)
  | or hd => exact .inl ⟨junctor_inj hx, hd⟩
  | and => exact .inr ⟨junctor_inj hx, rfl⟩

/-- Only an atom that follows matters to the place of a symbol. -/
theorem InPlace.of_append (hx : ∀ a, x ≠ Symbol.atom a) {y : Symbol}
    (h : InPlace d y (us ++ x :: vs)) : InPlace d y us := by
  generalize hrest : us ++ x :: vs = rest at h
  cases h with
  | left => exact .left
  | right => exact .right
  | atom a => exact .atom a
  | not a =>
    cases us with
    | nil => exact absurd (List.cons.inj hrest).1 (hx a)
    | cons y us =>
      obtain rfl := (List.cons.inj hrest).1
      exact .not a
  | or hd => exact .or hd
  | and => exact .and

theorem flat_nil : Flat d [] := fun before x after h => by simp at h

theorem flat_cons : Flat d (x :: ws) ↔ InPlace d x ws ∧ Flat (d + x.rise) ws := by
  constructor
  · intro h
    have hx : InPlace d x ws := by simpa using h [] x ws rfl
    refine ⟨hx, ?_⟩
    intro before y after hws
    rw [add_assoc, ← depth_cons]
    apply h (x :: before) y after
    rw [hws, List.cons_append]
  · rintro ⟨hx, h⟩ before y after hws
    cases before with
    | nil =>
      cases hws
      rwa [depth_nil, add_zero]
    | cons z before =>
      rw [List.cons_append] at hws
      obtain ⟨rfl, hrest⟩ := List.cons.inj hws
      rw [depth_cons, ← add_assoc]
      exact h before y after hrest

theorem Flat.of_append_right (h : Flat d (us ++ vs)) : Flat (d + depth us) vs := by
  intro before x after hvs
  rw [add_assoc, ← depth_append]
  apply h (us ++ before) x after
  rw [hvs, List.append_assoc]

theorem Flat.of_append_left (hx : ∀ a, x ≠ atom a) (h : Flat d (us ++ x :: vs)) : Flat d us := by
  intro before y after hus
  have hplace : InPlace (d + depth before) y (after ++ x :: vs) := by
    apply h before y
    rw [hus, List.append_assoc, List.cons_append]
  exact hplace.of_append hx

theorem InPlace.append (h : InPlace d x us) (vs : List Symbol) : InPlace d x (us ++ vs) := by
  cases h with
  | left => exact .left
  | right => exact .right
  | atom a => exact .atom a
  | not a => exact .not a
  | or hd => exact .or hd
  | and => exact .and

theorem Flat.append (hus : Flat d us) (hvs : Flat (d + depth us) vs) : Flat d (us ++ vs) := by
  induction us generalizing d with
  | nil => rwa [depth_nil, add_zero] at hvs
  | cons x us ih =>
    obtain ⟨hx, hrest⟩ := flat_cons.mp hus
    rw [depth_cons, ← add_assoc] at hvs
    exact flat_cons.mpr ⟨hx.append vs, ih hrest hvs⟩

theorem Flat.paren (h : Flat d (left :: (ws ++ [right]))) : Flat (d + 1) ws :=
  (flat_cons.mp h).2.of_append_left fun a => (atom_ne_right a).symm

/-- A connective between two formulas. -/
theorem Flat.split (h : Flat d (us ++ junctor op :: vs)) (hus : depth us = 0) :
    Flat d us ∧ (op = .or ∧ 0 < d ∨ op = .and ∧ d = 0) ∧ Flat d vs := by
  have hright : Flat d (junctor op :: vs) := by
    simpa [hus] using h.of_append_right
  obtain ⟨hplace, hvs⟩ := flat_cons.mp hright
  refine ⟨h.of_append_left fun a => (atom_ne_junctor a op).symm, hplace.of_junctor, ?_⟩
  rwa [junctor, rise, add_zero] at hvs

/-- Whether the symbol is an `and`. -/
def isAnd (x : Symbol) : Bool := x = junctor .and

/-- Within parentheses there is no `and`. -/
theorem Flat.isAnd_eq_false (h : Flat d ws) (hws : Closes 0 ws) (hd : 0 < d) (hx : x ∈ ws) :
    x.isAnd = false := by
  obtain ⟨before, after, rfl⟩ := List.append_of_mem hx
  have hnonneg : 0 ≤ 0 + depth before := hws.nonneg before (List.prefix_append _ _)
  refine decide_eq_false fun hand => ?_
  have hplace : InPlace (d + depth before) x after := h before x after rfl
  rw [hand] at hplace
  obtain ⟨hop, -⟩ | ⟨-, hdepth⟩ := hplace.of_junctor
  · cases hop
  · omega

/-! ### Literals -/

/-- The literals among symbols: the atoms in order, each negated if a `not` comes before it. -/
def literals : Bool → List Symbol → List Literal
  | _, [] => []
  | negated, word w :: ws =>
    match Atom.ofText? w with
    | some a => ⟨a, negated⟩ :: literals false ws
    | none => literals (w = Unary.not.word) ws
  | negated, _ :: ws => literals negated ws

variable {negated : Bool} {ls : List Literal}

theorem literals_atom (negated : Bool) (a : Atom) (ws : List Symbol) :
    literals negated (atom a :: ws) = ⟨a, negated⟩ :: literals false ws := by
  simp only [literals, atom, Atom.ofText?, Atom.ofChar?_name]

theorem literals_word {w : List Char} (h : w.length ≠ 1) (negated : Bool) (ws : List Symbol) :
    literals negated (word w :: ws) = literals (w = Unary.not.word) ws := by
  have hatom : Atom.ofText? w = none := by
    match w, h with
    | [], _ => rfl
    | [_], h => exact absurd rfl h
    | _ :: _ :: _, _ => rfl
  simp only [literals, hatom]

theorem literals_not (negated : Bool) (ws : List Symbol) :
    literals negated (not :: ws) = literals true ws := by
  rw [not, literals_word (by decide), decide_eq_true rfl]

theorem literals_junctor (negated : Bool) (op : Junctor) (ws : List Symbol) :
    literals negated (junctor op :: ws) = literals false ws := by
  rw [junctor, literals_word (length_word_ne_one op),
    decide_eq_false fun h => not_ne_junctor op (congrArg word h.symm)]

/-- Where the literals of what follows do not depend on a `not` before it. -/
theorem literals_append (h : ∀ b, literals b vs = ls) :
    literals negated (us ++ vs) = literals negated us ++ ls := by
  induction us generalizing negated with
  | nil => exact h negated
  | cons x us ih =>
    cases x with
    | left => exact ih
    | right => exact ih
    | word w =>
      simp only [List.cons_append, literals]
      split
      · rw [ih, List.cons_append]
      · exact ih

theorem literals_paren (ws : List Symbol) :
    literals negated (left :: (ws ++ [right])) = literals negated ws := by
  have h : literals negated (ws ++ [right]) = literals negated ws ++ [] :=
    literals_append fun b => rfl
  rwa [List.append_nil] at h

theorem literals_append_junctor (us vs : List Symbol) (op : Junctor) :
    literals false (us ++ junctor op :: vs) = literals false us ++ literals false vs :=
  literals_append fun b => literals_junctor b op vs

/-- Some literal among the symbols is true. -/
def SomeTrue (i : Interpretation) (ws : List Symbol) : Prop :=
  ∃ l ∈ literals false ws, i.makesTrue l = true

/-- Every piece between `and`s has a true literal. -/
def AllTrue (i : Interpretation) (ws : List Symbol) : Prop :=
  ∀ piece ∈ ws.splitOnP isAnd, SomeTrue i piece

theorem allTrue_iff_someTrue (h : ∀ x ∈ ws, x.isAnd = false) : AllTrue i ws ↔ SomeTrue i ws := by
  rw [AllTrue, List.splitOnP_eq_singleton h, List.forall_mem_singleton]

theorem someTrue_atom {a : Atom} : SomeTrue i [atom a] ↔ i.get? a = some true := by
  simp [SomeTrue, literals_atom, literals, Interpretation.makesTrue_iff, Literal.asserted]

theorem someTrue_not {a : Atom} : SomeTrue i [not, atom a] ↔ i.get? a = some false := by
  simp [SomeTrue, literals_not, literals_atom, literals, Interpretation.makesTrue_iff,
    Literal.asserted]

theorem someTrue_paren : SomeTrue i (left :: (ws ++ [right])) ↔ SomeTrue i ws := by
  rw [SomeTrue, literals_paren, SomeTrue]

theorem someTrue_append : SomeTrue i (us ++ junctor op :: vs) ↔ SomeTrue i us ∨ SomeTrue i vs := by
  simp only [SomeTrue, literals_append_junctor, List.mem_append, or_and_right, exists_or]

theorem allTrue_append_and :
    AllTrue i (us ++ junctor .and :: vs) ↔ AllTrue i us ∧ AllTrue i vs := by
  rw [AllTrue, List.splitOnP_append_cons us vs (decide_eq_true rfl), List.forall_mem_append]
  rfl

end Symbol

/-! ### Readings of flat formulas -/

namespace Reads

variable {n : ℕ} {d : ℤ} {ws rest : List Symbol} {e : Expr} {i : Interpretation} {a : Atom}

/-- A formula that binds as tightly as can be and begins with an atom is that atom. -/
theorem of_atom (h : Reads 0 (.atom a :: rest) e) : rest = [] ∧ e = .atom a := by
  generalize hn : 0 = n at h
  generalize hws : Symbol.atom a :: rest = ws at h
  induction h with
  | atom b =>
    obtain ⟨hatom, rfl⟩ := List.cons.inj hws
    rw [Symbol.atom_inj hatom]
    exact ⟨rfl, rfl⟩
  | paren _ _ => cases hws
  | not _ _ => exact absurd (List.cons.inj hws).1 (Symbol.atom_ne_not a)
  | binary op _ _ _ _ => cases op <;> cases hn
  | weaken _ hle ih => exact ih (by omega) hws

/-- A flat formula holds exactly if every piece between its `and`s has a true literal. -/
theorem eval_iff (h : Reads n ws e) (hflat : Symbol.Flat d ws) (hd : 0 ≤ d)
    (htotal : ∀ a, Symbol.atom a ∈ ws → (i.get? a).isSome = true) :
    e.eval i = true ↔ Symbol.AllTrue i ws := by
  induction h generalizing d with
  | atom a =>
    have hands : ∀ x ∈ [Symbol.atom a], x.isAnd = false := by
      simp [Symbol.isAnd, Symbol.atom_ne_junctor]
    rw [Symbol.allTrue_iff_someTrue hands, Symbol.someTrue_atom, Expr.eval, decide_eq_true_iff]
  | @paren n ws e h ih =>
    -- the parentheses shut out every `and`, so there is a single piece with and without them
    have hinner : Symbol.Flat (d + 1) ws := hflat.paren
    have hands : ∀ x ∈ ws, x.isAnd = false := by
      intro x hx
      exact hinner.isAnd_eq_false h.closes (by omega) hx
    have houter : ∀ x ∈ Symbol.left :: (ws ++ [Symbol.right]), x.isAnd = false :=
      List.forall_mem_cons.mpr ⟨rfl, List.forall_mem_append.mpr ⟨hands, by simp; rfl⟩⟩
    have hinnerTotal : ∀ a, Symbol.atom a ∈ ws → (i.get? a).isSome = true := by
      intro a ha
      exact htotal a (by simp [ha])
    rw [ih hinner (by omega) hinnerTotal, Symbol.allTrue_iff_someTrue hands,
      Symbol.allTrue_iff_someTrue houter, Symbol.someTrue_paren]
  | @not ws e h ih =>
    obtain ⟨a, rest, rfl⟩ := (Symbol.flat_cons.mp hflat).1.of_not
    obtain ⟨rfl, rfl⟩ := h.of_atom
    obtain ⟨v, hv⟩ := Option.isSome_iff_exists.mp (htotal a (by simp))
    have hands : ∀ x ∈ [Symbol.not, Symbol.atom a], x.isAnd = false := by
      simp [Symbol.isAnd, Symbol.atom_ne_junctor, Symbol.not_ne_junctor]
    rw [Symbol.allTrue_iff_someTrue hands, Symbol.someTrue_not, hv]
    simp [Expr.eval, hv]
  | @binary op us vs e f he hf ihe ihf =>
    have hdepth : Symbol.depth us = 0 := by
      simpa using he.closes.closed
    obtain ⟨hus, hplace, hvs⟩ := hflat.split hdepth
    have hleft : e.eval i = true ↔ Symbol.AllTrue i us := by
      apply ihe hus hd
      intro a ha
      exact htotal a (List.mem_append_left _ ha)
    have hright : f.eval i = true ↔ Symbol.AllTrue i vs := by
      apply ihf hvs hd
      intro a ha
      exact htotal a (List.mem_append_right _ (List.mem_cons_of_mem _ ha))
    obtain ⟨rfl, hpos⟩ | ⟨rfl, rfl⟩ := hplace
    · have hands : ∀ x ∈ us ++ Symbol.junctor .or :: vs, x.isAnd = false := by
        intro x hx
        exact hflat.isAnd_eq_false (he.binary .or hf).closes hpos hx
      obtain ⟨handsLeft, handsRight⟩ := List.forall_mem_append.mp hands
      rw [Symbol.allTrue_iff_someTrue handsLeft] at hleft
      rw [Symbol.allTrue_iff_someTrue (List.forall_mem_cons.mp handsRight).2] at hright
      rw [Symbol.allTrue_iff_someTrue hands, Symbol.someTrue_append, ← hleft, ← hright]
      exact Bool.or_eq_true_iff
    · rw [Symbol.allTrue_append_and, ← hleft, ← hright]
      exact Bool.and_eq_true_iff
  | weaken _ _ ih => exact ih hflat hd htotal

end Reads
end Clausal
