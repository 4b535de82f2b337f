import Mathlib
import Clausal.Proofs.Formula.OuterParens
import Clausal.Proofs.Formula.WellFormed

/-! # Well-formed texts in parentheses

A pair of parentheses around a text lengthens its first and its last word, and changes neither what
the first token stands for nor whether the last one is an atom.  So a text that begins with a left
parenthesis, and does not end in a blank, is well formed exactly if it is within a further pair
(`Formula.isWellFormed_wrapped_iff`).  Stripping therefore neither breaks nor mends a text, unless
it uncovers a blank (`Formula.isWellFormed_stripOuterParens_iff`), and the tokens of a well-formed
text stand for the same after stripping (`Formula.IsWellFormed.kinds_stripOuterParens`). -/

namespace Clausal

open Text (isBlank trim)

/-! ### Longer words -/

namespace Token

theorem kind_ofWord_left (w : List Char) : (ofWord ('(' :: w)).kind = (ofWord w).kind := rfl

theorem isAtom_ofWord_iff {w : List Char} :
    (ofWord w).IsAtom ↔ ∃ a, Atom.ofText? (core w) = some a := by
  constructor
  · rintro ⟨b, hb⟩
    obtain ⟨a, -, hcore⟩ | ⟨op, hkind, -⟩ | ⟨op, hkind, -⟩ | ⟨u, hkind⟩ | hkind := ofWord_cases w
    · exact ⟨a, by simp [hcore, Atom.ofText?]⟩
    all_goals
      rw [hkind] at hb
      cases hb
  · rintro ⟨a, ha⟩
    have hkind : (ofWord w).kind = kindOf (w.dropWhile (· = '(')) (core w) := rfl
    exact ⟨a, by rw [hkind, kindOf, ha]⟩

theorem core_concat_right (w : List Char) : core (w ++ [')']) = core w := by
  rw [core, Symbol.dropWhile_concat_right, Text.dropTrailing_concat, if_pos (decide_eq_true rfl)]
  rfl

theorem isAtom_ofWord_right (w : List Char) : (ofWord (w ++ [')'])).IsAtom ↔ (ofWord w).IsAtom := by
  rw [isAtom_ofWord_iff, isAtom_ofWord_iff, core_concat_right]

theorem kind_ofWord_right {w : List Char} (h : (ofWord w).IsAtom) :
    (ofWord (w ++ [')'])).kind = (ofWord w).kind := by
  obtain ⟨a, ha⟩ := isAtom_ofWord_iff.mp h
  have hkind : ∀ body, kindOf body (core w) = .atom a := fun body => by rw [kindOf, ha]
  show kindOf ((w ++ [')']).dropWhile (· = '(')) (core (w ++ [')'])) =
    kindOf (w.dropWhile (· = '(')) (core w)
  rw [core_concat_right, hkind, hkind]

/-- What the tokens of a text stand for. -/
def kinds (text : List Char) : List Kind := (scan text).map (·.kind)

end Token

/-! ### First and last tokens -/

variable {previous : Option Term} {t u : Token} {ts : List Token}

/-- Only what the first token stands for decides whether there is a fault. -/
theorem sequenceFaults_cons_congr (h : t.kind = u.kind) :
    sequenceFaults previous (t :: ts) = [] ↔ sequenceFaults previous (u :: ts) = [] := by
  simp only [sequenceFaults_eq_nil_iff, List.forall₂_cons_left_iff, h]

/-- A last token has no fault if it is an atom in its place. -/
theorem sequenceFaults_singleton :
    sequenceFaults previous [t] = [] ↔ t.IsAtom ∧ ∀ a, previous ≠ some (.atom a) := by
  rw [sequenceFaults_cons, List.append_eq_nil_iff]
  cases hkind : t.kind <;> rcases previous with _ | _ | _ <;>
    simp [faultsAt, Term.after, sequenceFaults, Token.IsAtom, hkind]

theorem sequenceFaults_concat_congr (h : t.IsAtom ↔ u.IsAtom) :
    sequenceFaults previous (ts ++ [t]) = [] ↔ sequenceFaults previous (ts ++ [u]) = [] := by
  induction ts generalizing previous with
  | nil =>
    rw [List.nil_append, List.nil_append, sequenceFaults_singleton, sequenceFaults_singleton, h]
  | cons s ts ih =>
    rw [List.cons_append, List.cons_append, sequenceFaults_cons, sequenceFaults_cons,
      List.append_eq_nil_iff, List.append_eq_nil_iff, ih]

theorem isAtom_of_sequenceFaults_concat (h : sequenceFaults previous (ts ++ [t]) = []) :
    t.IsAtom := by
  induction ts generalizing previous with
  | nil => exact (sequenceFaults_singleton.mp h).1
  | cons s ts ih =>
    rw [List.cons_append, sequenceFaults_cons, List.append_eq_nil_iff] at h
    exact ih h.2

/-! ### Texts in parentheses -/

namespace Formula

variable {text inner : List Char}

theorem sequenceFaults_scan_left (text : List Char) :
    sequenceFaults previous (Token.scan ('(' :: '(' :: text)) = [] ↔
      sequenceFaults previous (Token.scan ('(' :: text)) = [] := by
  have hleft : isBlank '(' = false := by decide
  obtain ⟨w, ws, hwords, hmore⟩ := Text.words_cons hleft text
  rw [Token.scan, Token.scan, hmore '(' hleft, hwords, List.map_cons, List.map_cons]
  exact sequenceFaults_cons_congr (Token.kind_ofWord_left _)

theorem sequenceFaults_scan_right (hne : text ≠ [])
    (hlast : ∀ c ∈ text.getLast?, isBlank c = false) :
    sequenceFaults previous (Token.scan (text ++ [')'])) = [] ↔
      sequenceFaults previous (Token.scan text) = [] := by
  rcases List.eq_nil_or_concat text with rfl | ⟨init, c, rfl⟩
  · exact absurd rfl hne
  rw [List.concat_eq_append] at hlast ⊢
  obtain ⟨ws, w, hwords, hmore⟩ := Text.words_concat (hlast c List.getLast?_concat) init
  rw [Token.scan, Token.scan, hmore ')' (by decide), hwords, List.map_append, List.map_append]
  exact sequenceFaults_concat_congr (Token.isAtom_ofWord_right _)

/-- A pair of parentheses around a text that begins with one makes no difference. -/
theorem isWellFormed_wrapped_iff (hlast : ∀ c ∈ ('(' :: inner).getLast?, isBlank c = false) :
    IsWellFormed ('(' :: ('(' :: inner ++ [')'])) ↔ IsWellFormed ('(' :: inner) := by
  have hcounts : ('(' :: ('(' :: inner ++ [')'])).count '(' = ('(' :: inner).count '(' + 1 ∧
      ('(' :: ('(' :: inner ++ [')'])).count ')' = ('(' :: inner).count ')' + 1 := by
    simp
  rw [isWellFormed_iff, isWellFormed_iff, hcounts.1, hcounts.2, Nat.add_right_cancel_iff,
    List.cons_append, sequenceFaults_scan_left, ← List.cons_append,
    sequenceFaults_scan_right (List.cons_ne_nil _ _) hlast]

theorem isBlank_getLast?_inParens (hlast : ∀ c ∈ ('(' :: inner).getLast?, isBlank c = false)
    (n : ℕ) : ∀ c ∈ (inParens n ('(' :: inner)).getLast?, isBlank c = false := by
  cases n with
  | zero =>
    rw [inParens_zero]
    exact hlast
  | succ n =>
    rw [inParens_succ, ← List.cons_append, List.getLast?_concat]
    rintro _ ⟨⟩
    decide

theorem isWellFormed_inParens_iff (hlast : ∀ c ∈ ('(' :: inner).getLast?, isBlank c = false)
    (n : ℕ) : IsWellFormed (inParens n ('(' :: inner)) ↔ IsWellFormed ('(' :: inner) := by
  induction n with
  | zero => rw [inParens_zero]
  | succ n ih =>
    obtain ⟨rest, hrest⟩ := exists_inParens_eq_cons n inner
    have hlast' := isBlank_getLast?_inParens hlast n
    rw [hrest] at hlast'
    rw [inParens_succ, hrest, isWellFormed_wrapped_iff hlast', ← hrest, ih]

theorem kinds_left (text : List Char) :
    Token.kinds ('(' :: '(' :: text) = Token.kinds ('(' :: text) := by
  have hleft : isBlank '(' = false := by decide
  obtain ⟨w, ws, hwords, hmore⟩ := Text.words_cons hleft text
  rw [Token.kinds, Token.kinds, Token.scan, Token.scan, hmore '(' hleft, hwords]
  simp only [List.map_cons, Token.kind_ofWord_left]

theorem kinds_right (hfaults : sequenceFaults none (Token.scan text) = [])
    (hlast : ∀ c ∈ text.getLast?, isBlank c = false) :
    Token.kinds (text ++ [')']) = Token.kinds text := by
  rcases List.eq_nil_or_concat text with rfl | ⟨init, c, rfl⟩
  · cases hfaults
  rw [List.concat_eq_append] at hfaults hlast ⊢
  obtain ⟨ws, w, hwords, hmore⟩ := Text.words_concat (hlast c List.getLast?_concat) init
  rw [Token.scan, hwords, List.map_append] at hfaults
  have hatom := isAtom_of_sequenceFaults_concat hfaults
  rw [Token.kinds, Token.kinds, Token.scan, Token.scan, hmore ')' (by decide), hwords]
  simp only [List.map_append, List.map_cons, List.map_nil, Token.kind_ofWord_right hatom]

/-- The tokens of a well-formed text stand for the same within further pairs of parentheses. -/
theorem kinds_inParens (hwell : IsWellFormed ('(' :: inner))
    (hlast : ∀ c ∈ ('(' :: inner).getLast?, isBlank c = false) (n : ℕ) :
    Token.kinds (inParens n ('(' :: inner)) = Token.kinds ('(' :: inner) := by
  induction n with
  | zero => rw [inParens_zero]
  | succ n ih =>
    obtain ⟨rest, hrest⟩ := exists_inParens_eq_cons n inner
    have hlast' := isBlank_getLast?_inParens hlast n
    have hwell' := (isWellFormed_inParens_iff hlast n).mpr hwell
    rw [hrest] at hlast' hwell'
    have hright := kinds_right (isWellFormed_iff.mp hwell').1 hlast'
    rw [inParens_succ, hrest, List.cons_append, kinds_left, ← List.cons_append, hright, ← hrest,
      ih]

/-! ### Stripped texts -/

theorem isWellFormed_trim_iff (text : List Char) :
    IsWellFormed (trim text) ↔ IsWellFormed text := by
  have hcount : ∀ c, isBlank c = false → (trim text).count c = text.count c := by
    intro c hc
    rw [← Text.sum_count_words hc, Text.words_trim, Text.sum_count_words hc]
  rw [isWellFormed_iff, isWellFormed_iff, hcount '(' (by decide), hcount ')' (by decide),
    Token.scan, Text.words_trim, Token.scan]

/-- Stripping that uncovers no blank makes no difference. -/
theorem isWellFormed_stripOuterParens_iff (h : ¬ UncoversBlank text) :
    IsWellFormed (stripOuterParens text) ↔ IsWellFormed text := by
  obtain ⟨n, hn, hinner⟩ := exists_inParens_peelParens (trim text)
  rw [← isWellFormed_trim_iff text]
  by_cases hzero : n = 0
  · rw [hzero, inParens_zero] at hn
    rw [stripOuterParens, ← hn]
  · obtain ⟨inner, hpeel⟩ := hinner hzero
    have hlast : ∀ c ∈ ('(' :: inner).getLast?, isBlank c = false := by
      rw [← hpeel]
      exact getLast?_stripOuterParens_of_not_uncoversBlank h
    rw [hn, stripOuterParens, hpeel, isWellFormed_inParens_iff hlast]

/-- The letters of a word stand among its parentheses. -/
theorem IsWellFormed.exists_letter (h : IsWellFormed text) {w : List Char}
    (hw : w ∈ Text.words text) : ∃ c ∈ w, c ≠ ')' := by
  obtain ⟨roles, hroles, -⟩ := h.alternates
  obtain ⟨r, hspelled⟩ := Role.exists_spelled_of_mem hroles hw
  obtain ⟨m, core, n, rfl, hne, hcore, -⟩ := hspelled.exists_letters
  obtain ⟨c, hc⟩ := List.exists_mem_of_ne_nil core hne
  refine ⟨c, by simp [hc], ?_⟩
  rintro rfl
  have hparen := List.all_eq_true.mp hcore _ hc
  rw [Text.isAlphanumeric_eq_false (by simp)] at hparen
  cases hparen

theorem IsWellFormed.not_uncoversBlank (h : IsWellFormed text) : ¬ UncoversBlank text := by
  intro hblank
  obtain ⟨w, hw, hright⟩ := hblank.last_word
  obtain ⟨c, hc, hne⟩ := h.exists_letter (List.mem_of_mem_getLast? hw)
  exact hne (hright c hc)

/-- Stripping a well-formed text changes nothing about what its tokens stand for. -/
theorem IsWellFormed.kinds_stripOuterParens (h : IsWellFormed text) :
    Token.kinds (stripOuterParens text) = Token.kinds text := by
  have htrim : Token.kinds (trim text) = Token.kinds text := by
    rw [Token.kinds, Token.scan, Text.words_trim]
    rfl
  obtain ⟨n, hn, hinner⟩ := exists_inParens_peelParens (trim text)
  by_cases hzero : n = 0
  · rw [hzero, inParens_zero] at hn
    rw [stripOuterParens, ← hn, htrim]
  · obtain ⟨inner, hpeel⟩ := hinner hzero
    have hwell := (isWellFormed_stripOuterParens_iff h.not_uncoversBlank).mpr h
    have hlast := getLast?_stripOuterParens_of_not_uncoversBlank h.not_uncoversBlank
    have hstrip : stripOuterParens text = '(' :: inner := hpeel
    rw [hstrip] at hwell hlast
    rw [← htrim, hn, hpeel, kinds_inParens hwell hlast, hstrip]

end Formula
end Clausal
