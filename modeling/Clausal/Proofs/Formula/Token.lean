import Mathlib
import Clausal.Formula.Token

/-! # Facts about tokens

A word is an atom, a connective, an unknown word or only parentheses (`Token.kindOf_cases`), and
parentheses trail atoms only (`Token.attached_of_mem_scan`).  The `and`s of a sequence of tokens
cut it into pieces, so a property of all sequences follows from that of a single piece and of a
piece before an `and` and more (`Token.segments_induction`). -/

namespace Clausal.Token

variable {t u : Token} {ts seg : List Token}

/-! ### Kinds -/

/-- The token is an atom. -/
def IsAtom (t : Token) : Prop := ∃ a, t.kind = .atom a

/-- The token is an atom or a connective. -/
def IsTerm (t : Token) : Prop := t.kind ≠ .parens ∧ ∀ w, t.kind ≠ .unknown w

/-- The atom of a token that is one. -/
def Kind.atom? : Kind → Option Atom
  | atom a => some a
  | _ => none

/-- Trailing parentheses belong to atoms, so a connective has none. -/
def Attached (t : Token) : Prop :=
  (∀ op, t.kind = .unary op → t.closes = 0) ∧ ∀ op, t.kind = .binary op → t.closes = 0

theorem kindOfWord_cases (w : List Char) :
    (∃ op : Unary, Kind.ofWord w = .unary op ∧ w = op.word) ∨
    (∃ op : Binary, Kind.ofWord w = .binary op ∧ w = op.word) ∨
    Kind.ofWord w = .unknown w := by
  unfold Kind.ofWord
  cases hunary : Unary.ofWord? w with
  | some op => exact .inl ⟨op, rfl, (Unary.ofWord?_eq_some_iff.mp hunary).symm⟩
  | none =>
    cases hbinary : Binary.ofWord? w with
    | some op => exact .inr (.inl ⟨op, rfl, (Binary.ofWord?_eq_some_iff.mp hbinary).symm⟩)
    | none => exact .inr (.inr rfl)

/-- An atom or a connective is its core, and the core of a connective is all that follows the
leading parentheses. -/
theorem kindOf_cases (body core : List Char) :
    (∃ a : Atom, kindOf body core = .atom a ∧ core = [a.name]) ∨
    (∃ op : Unary, kindOf body core = .unary op ∧ core = op.word ∧ core = body) ∨
    (∃ op : Binary, kindOf body core = .binary op ∧ core = op.word ∧ core = body) ∨
    (∃ w, kindOf body core = .unknown w) ∨ kindOf body core = .parens := by
  unfold kindOf
  cases hatom : Atom.ofText? core with
  | some a =>
    refine .inl ⟨a, rfl, ?_⟩
    unfold Atom.ofText? at hatom
    split at hatom
    · rw [Atom.ofChar?_eq_some_iff.mp hatom]
    · cases hatom
  | none =>
    dsimp only
    by_cases hempty : core = []
    · rw [if_pos hempty]
      exact .inr (.inr (.inr (.inr rfl)))
    rw [if_neg hempty]
    by_cases hbody : core = body
    · rw [if_pos hbody]
      obtain ⟨op, hop, hword⟩ | ⟨op, hop, hword⟩ | hunknown := kindOfWord_cases core
      · exact .inr (.inl ⟨op, hop, hword, hbody⟩)
      · exact .inr (.inr (.inl ⟨op, hop, hword, hbody⟩))
      · exact .inr (.inr (.inr (.inl ⟨core, hunknown⟩)))
    · rw [if_neg hbody]
      exact .inr (.inr (.inr (.inl ⟨body, rfl⟩)))

/-- What is left of a word without the parentheses at its ends. -/
def core (w : List Char) : List Char := Text.dropTrailing (· = ')') (w.dropWhile (· = '('))

theorem ofWord_cases (w : List Char) :
    (∃ a : Atom, (ofWord w).kind = .atom a ∧ core w = [a.name]) ∨
    (∃ op : Unary, (ofWord w).kind = .unary op ∧ core w = op.word ∧ (ofWord w).closes = 0) ∨
    (∃ op : Binary, (ofWord w).kind = .binary op ∧ core w = op.word ∧ (ofWord w).closes = 0) ∨
    (∃ u, (ofWord w).kind = .unknown u) ∨ (ofWord w).kind = .parens := by
  have hcloses : core w = w.dropWhile (· = '(') → (ofWord w).closes = 0 := by
    intro h
    show (w.dropWhile (· = '(')).length - (core w).length = 0
    rw [h, Nat.sub_self]
  obtain h | ⟨op, hkind, hword, hbody⟩ | ⟨op, hkind, hword, hbody⟩ | h :=
    kindOf_cases (w.dropWhile (· = '(')) (core w)
  · exact .inl h
  · exact .inr (.inl ⟨op, hkind, hword, hcloses hbody⟩)
  · exact .inr (.inr (.inl ⟨op, hkind, hword, hcloses hbody⟩))
  · exact .inr (.inr (.inr h))

theorem attached_ofWord (w : List Char) : (ofWord w).Attached := by
  obtain ⟨a, hkind, -⟩ | ⟨op, -, -, hcloses⟩ | ⟨op, -, -, hcloses⟩ | ⟨u, hkind⟩ | hkind :=
    ofWord_cases w
  · simp [Attached, hkind]
  · exact ⟨fun _ _ => hcloses, fun _ _ => hcloses⟩
  · exact ⟨fun _ _ => hcloses, fun _ _ => hcloses⟩
  · simp [Attached, hkind]
  · simp [Attached, hkind]

theorem attached_of_mem_scan {text : List Char} (h : t ∈ scan text) : t.Attached := by
  obtain ⟨w, -, rfl⟩ := List.mem_map.mp h
  exact attached_ofWord w

/-- The word of an atom or a connective is its core. -/
theorem word_ofWord {w : List Char} (h : (ofWord w).IsTerm) : (ofWord w).kind.word = core w := by
  obtain ⟨a, hkind, hcore⟩ | ⟨op, hkind, hcore, -⟩ | ⟨op, hkind, hcore, -⟩ | ⟨u, hkind⟩ | hkind :=
    ofWord_cases w
  · rw [hkind, hcore]
    rfl
  · rw [hkind, hcore]
    rfl
  · rw [hkind, hcore]
    rfl
  · exact absurd hkind (h.2 u)
  · exact absurd hkind h.1

/-! ### The pieces between `and`s -/

/-- Whether the token is an `and`. -/
def isAnd (t : Token) : Bool := t.kind = .binary .and

theorem kind_eq_and_of_isAnd (h : t.isAnd = true) : t.kind = .binary .and :=
  of_decide_eq_true h

/-- The pieces of a formula between its `and`s. -/
def segments (ts : List Token) : List (List Token) := ts.splitOnP isAnd

theorem segments_single (h : ∀ t ∈ seg, t.isAnd = false) : segments seg = [seg] :=
  List.splitOnP_eq_singleton h

theorem segments_join (h : ∀ t ∈ seg, t.isAnd = false) (hand : t.isAnd = true) (ts : List Token) :
    segments (seg ++ t :: ts) = seg :: segments ts :=
  List.splitOnP_append_cons_of_forall_mem h t hand ts

/-- Induction over the pieces. -/
theorem segments_induction {P : List Token → Prop}
    (single : ∀ seg, (∀ t ∈ seg, t.isAnd = false) → P seg)
    (join : ∀ seg t ts, (∀ t ∈ seg, t.isAnd = false) → t.isAnd = true → P ts → P (seg ++ t :: ts))
    (ts : List Token) : P ts := by
  -- a piece is met token by token, so the part of it that was met goes along
  have hmet : ∀ (ts met : List Token), (∀ t ∈ met, t.isAnd = false) → P (met ++ ts) := by
    intro ts
    induction ts with
    | nil =>
      intro met hmet
      rw [List.append_nil]
      exact single met hmet
    | cons t ts ih =>
      intro met hmet
      by_cases hand : t.isAnd = true
      · exact join met t ts hmet hand (ih [] (by simp))
      · rw [← List.singleton_append, ← List.append_assoc]
        apply ih (met ++ [t])
        intro u hu
        obtain hu | hu := List.mem_append.mp hu
        · exact hmet u hu
        · rw [List.mem_singleton.mp hu]
          exact Bool.eq_false_iff.mpr hand
  exact hmet ts [] (by simp)

theorem mem_of_mem_segments (hseg : seg ∈ segments ts) (hu : u ∈ seg) : u ∈ ts := by
  induction ts using segments_induction with
  | single piece hpiece =>
    rw [segments_single hpiece, List.mem_singleton] at hseg
    exact hseg ▸ hu
  | join piece t ts hpiece hand ih =>
    rw [segments_join hpiece hand, List.mem_cons] at hseg
    obtain rfl | hseg := hseg
    · exact List.mem_append_left _ hu
    · exact List.mem_append_right _ (List.mem_cons_of_mem t (ih hseg))

end Clausal.Token
