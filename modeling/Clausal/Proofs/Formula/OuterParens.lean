import Mathlib
import Clausal.Proofs.Formula.Spelling

/-! # Stripping twice

Stripping removes equally many parentheses at both ends (`exists_inParens_peelParens`), and a second
pass over the same characters would find nothing left to remove (`peelParens_peelParens`).  But
blanks are trimmed only once, before the first parenthesis goes, so a blank may come to the end that
a second stripping would trim away (`UncoversBlank`).  These are the only texts that change when
they are stripped again (`stripOuterParens_stripOuterParens_eq_iff`), and their last word has right
parentheses only (`UncoversBlank.last_word`). -/

namespace Clausal

namespace Text

variable {text : List Char} {c : Char}

theorem head?_trim (h : c ∈ (trim text).head?) : isBlank c = false := by
  obtain ⟨blanks, hsplit⟩ : ∃ blanks, text.dropWhile isBlank = trim text ++ blanks := by
    refine ⟨((text.dropWhile isBlank).reverse.takeWhile isBlank).reverse, ?_⟩
    rw [trim, dropTrailing, ← List.reverse_append, List.takeWhile_append_dropWhile,
      List.reverse_reverse]
  have hhead : c ∈ (text.dropWhile isBlank).head? := by
    rw [hsplit]
    exact List.mem_head?_append_of_mem_head? h
  have hnot := List.head?_dropWhile_not isBlank text
  rw [Option.mem_def.mp hhead] at hnot
  simpa using hnot

theorem getLast?_trim (h : c ∈ (trim text).getLast?) : isBlank c = false := by
  rw [trim, dropTrailing, List.getLast?_reverse] at h
  have hnot := List.head?_dropWhile_not isBlank (text.dropWhile isBlank).reverse
  rw [Option.mem_def.mp h] at hnot
  simpa using hnot

theorem trim_eq_self (hhead : ∀ c ∈ text.head?, isBlank c = false)
    (hlast : ∀ c ∈ text.getLast?, isBlank c = false) : trim text = text := by
  have hlead : text.dropWhile isBlank = text := by
    cases text with
    | nil => rfl
    | cons c text => exact List.dropWhile_cons_of_neg (by simp [hhead c rfl])
  rw [trim, hlead, dropTrailing_eq_self hlast]

/-- Without words there are blanks only. -/
theorem trim_eq_nil (h : words text = []) : trim text = [] := by
  by_contra hne
  have hlast := List.getLast?_eq_some_getLast hne
  have hblank := getLast?_trim hlast
  have hnone : withoutBlanks (trim text) = [] := by
    rw [← flatten_words, words_trim, h]
    rfl
  rw [withoutBlanks, List.filter_eq_nil_iff] at hnone
  exact hnone _ (List.mem_of_mem_getLast? hlast) (by rw [hblank]; rfl)

theorem length_trim_le (text : List Char) : (trim text).length ≤ text.length :=
  (length_dropTrailing_le _ _).trans (List.dropWhile_sublist isBlank).length_le

end Text

open Text (isBlank trim)

variable {text : List Char}

/-! ### Peeling -/

/-- One step of peeling. -/
theorem peelParens_wrapped (inner : List Char) :
    peelParens ('(' :: ('(' :: inner ++ [')'])) = peelParens ('(' :: inner) := by
  rw [List.cons_append, peelParens, if_pos List.getLast?_concat, List.dropLast_concat]

/-- A text stays as it is if it does not end in a right parenthesis. -/
theorem peelParens_eq_self (h : ∀ c ∈ text.getLast?, c ≠ ')') : peelParens text = text := by
  unfold peelParens
  split
  · next rest =>
    refine if_neg fun hlast => ?_
    have hright : ')' ∈ (['(', '('] ++ rest).getLast? :=
      List.mem_getLast?_append_of_mem_getLast? hlast
    exact h ')' hright rfl
  · rfl

theorem peelParens_peelParens (text : List Char) :
    peelParens (peelParens text) = peelParens text := by
  fun_induction peelParens text with
  | case1 rest hlast ih => exact ih
  | case2 rest hlast => rw [peelParens, if_neg hlast]
  | case3 text hother =>
    unfold peelParens
    split
    · next rest => exact absurd rfl (hother rest)
    · rfl

/-- The text in `n` more pairs of parentheses. -/
def inParens (n : ℕ) (text : List Char) : List Char :=
  List.replicate n '(' ++ text ++ List.replicate n ')'

theorem inParens_zero (text : List Char) : inParens 0 text = text := by
  simp [inParens]

theorem inParens_succ (n : ℕ) (text : List Char) :
    inParens (n + 1) text = '(' :: (inParens n text ++ [')']) := by
  rw [inParens, inParens, List.replicate_succ, List.replicate_succ']
  simp only [List.cons_append, List.append_assoc]

theorem length_inParens (n : ℕ) (text : List Char) :
    (inParens n text).length = text.length + 2 * n := by
  simp only [inParens, List.length_append, List.length_replicate]
  omega

/-- Peeling takes away equally many parentheses at both ends, and leaves one in front. -/
theorem exists_inParens_peelParens (text : List Char) :
    ∃ n, text = inParens n (peelParens text) ∧
      (n ≠ 0 → ∃ inner, peelParens text = '(' :: inner) := by
  fun_induction peelParens text with
  | case1 rest hlast ih =>
    obtain ⟨n, hn, hinner⟩ := ih
    have hrest : '(' :: '(' :: rest = '(' :: ('(' :: rest.dropLast ++ [')']) := by
      rw [List.cons_append, List.dropLast_append_getLast? _ hlast]
    refine ⟨n + 1, ?_, fun _ => ?_⟩
    · rw [inParens_succ, ← hn, hrest]
    · by_cases hzero : n = 0
      · rw [hzero, inParens_zero] at hn
        exact ⟨_, hn.symm⟩
      · exact hinner hzero
  | case2 rest hlast => exact ⟨0, (inParens_zero _).symm, fun h => absurd rfl h⟩
  | case3 text hother => exact ⟨0, (inParens_zero _).symm, fun h => absurd rfl h⟩

theorem exists_inParens_eq_cons (n : ℕ) (inner : List Char) :
    ∃ rest, inParens n ('(' :: inner) = '(' :: rest := by
  cases n with
  | zero => exact ⟨inner, inParens_zero _⟩
  | succ n => exact ⟨_, inParens_succ n _⟩

theorem peelParens_inParens (n : ℕ) (inner : List Char) :
    peelParens (inParens n ('(' :: inner)) = peelParens ('(' :: inner) := by
  induction n with
  | zero => rw [inParens_zero]
  | succ n ih =>
    obtain ⟨rest, hrest⟩ := exists_inParens_eq_cons n inner
    rw [inParens_succ, hrest, peelParens_wrapped, ← hrest, ih]

/-! ### Blanks that come to the end -/

/-- Behind the last blank of the trimmed text stand right parentheses only, and the text begins with
more left ones than that, so that stripping ends at the blank. -/
def UncoversBlank (text : List Char) : Prop :=
  ∃ n inner b, 0 < n ∧ isBlank b = true ∧ trim text = inParens n ('(' :: (inner ++ [b]))

theorem getLast?_cons_concat (inner : List Char) (b : Char) :
    ('(' :: (inner ++ [b])).getLast? = some b := by
  rw [← List.cons_append, List.getLast?_concat]

theorem uncoversBlank_iff :
    UncoversBlank text ↔ ∃ b ∈ (stripOuterParens text).getLast?, isBlank b = true := by
  constructor
  · rintro ⟨n, inner, b, -, hb, htrim⟩
    refine ⟨b, ?_, hb⟩
    have hother : ∀ c ∈ ('(' :: (inner ++ [b])).getLast?, c ≠ ')' := by
      rw [getLast?_cons_concat]
      rintro _ ⟨⟩ rfl
      exact absurd hb (by decide)
    rw [stripOuterParens, htrim, peelParens_inParens, peelParens_eq_self hother]
    exact getLast?_cons_concat inner b
  · rintro ⟨b, hlast, hb⟩
    obtain ⟨n, hn, hinner⟩ := exists_inParens_peelParens (trim text)
    have hlast' : b ∈ (peelParens (trim text)).getLast? := hlast
    have hpos : n ≠ 0 := by
      rintro rfl
      rw [inParens_zero] at hn
      rw [← hn] at hlast'
      rw [Text.getLast?_trim hlast'] at hb
      cases hb
    obtain ⟨inner, hleft⟩ := hinner hpos
    rw [hleft] at hn hlast'
    rcases List.eq_nil_or_concat inner with rfl | ⟨init, c, rfl⟩
    · cases hlast'
      cases hb
    · rw [List.concat_eq_append] at hn hlast'
      rw [getLast?_cons_concat] at hlast'
      cases hlast'
      exact ⟨n, init, b, Nat.pos_of_ne_zero hpos, hb, hn⟩

/-- The last word of such a text has right parentheses only. -/
theorem UncoversBlank.last_word (h : UncoversBlank text) :
    ∃ w ∈ (Text.words text).getLast?, ∀ c ∈ w, c = ')' := by
  obtain ⟨n, inner, b, hn, hb, htrim⟩ := h
  have hright : Text.words (List.replicate n ')') = [List.replicate n ')'] :=
    Text.words_eq_singleton (by simpa using hn.ne') (Token.isBlank_replicate (by decide) n)
  have hcut : inParens n ('(' :: (inner ++ [b])) =
      (List.replicate n '(' ++ '(' :: inner) ++ b :: List.replicate n ')' := by
    simp [inParens]
  refine ⟨List.replicate n ')', ?_, fun c hc => List.eq_of_mem_replicate hc⟩
  rw [← Text.words_trim, htrim, hcut, Text.words, Text.runs_append_cons hb]
  show _ ∈ (Text.words _ ++ Text.words _).getLast?
  rw [hright, List.getLast?_concat]
  rfl

/-! ### Stripping -/

theorem stripOuterParens_eq_nil (h : Text.words text = []) : stripOuterParens text = [] := by
  rw [stripOuterParens, Text.trim_eq_nil h]
  exact peelParens_eq_self (by simp)

theorem head?_stripOuterParens : ∀ c ∈ (stripOuterParens text).head?, isBlank c = false := by
  intro c hc
  obtain ⟨n, hn, hinner⟩ := exists_inParens_peelParens (trim text)
  have hc' : c ∈ (peelParens (trim text)).head? := hc
  by_cases hzero : n = 0
  · rw [hzero, inParens_zero] at hn
    rw [← hn] at hc'
    exact Text.head?_trim hc'
  · obtain ⟨inner, hleft⟩ := hinner hzero
    rw [hleft] at hc'
    cases hc'
    decide

theorem getLast?_stripOuterParens_of_not_uncoversBlank (h : ¬ UncoversBlank text) :
    ∀ c ∈ (stripOuterParens text).getLast?, isBlank c = false := fun c hc =>
  Bool.eq_false_iff.mpr fun hblank => h (uncoversBlank_iff.mpr ⟨c, hc, hblank⟩)

/-- Without a blank that comes to the end, a text is stripped for good. -/
theorem stripOuterParens_of_not_uncoversBlank (h : ¬ UncoversBlank text) :
    stripOuterParens (stripOuterParens text) = stripOuterParens text := by
  have htrim : trim (stripOuterParens text) = stripOuterParens text :=
    Text.trim_eq_self head?_stripOuterParens (getLast?_stripOuterParens_of_not_uncoversBlank h)
  rw [stripOuterParens, htrim, stripOuterParens, peelParens_peelParens]

/-- A second stripping changes nothing, unless the first has uncovered a blank. -/
theorem stripOuterParens_stripOuterParens_eq_iff (text : List Char) :
    stripOuterParens (stripOuterParens text) = stripOuterParens text ↔ ¬ UncoversBlank text := by
  refine ⟨fun hstrip hblank => ?_, stripOuterParens_of_not_uncoversBlank⟩
  -- if nothing is stripped again, then nothing is trimmed either, and the blank is still there
  obtain ⟨b, hlast, hb⟩ := uncoversBlank_iff.mp hblank
  obtain ⟨n, hn, -⟩ := exists_inParens_peelParens (trim (stripOuterParens text))
  have hpeel : peelParens (trim (stripOuterParens text)) = stripOuterParens text := hstrip
  rw [hpeel] at hn
  have hlength := Text.length_trim_le (stripOuterParens text)
  rw [hn, length_inParens] at hlength
  obtain rfl : n = 0 := by omega
  rw [inParens_zero] at hn
  rw [← hn] at hlast
  rw [Text.getLast?_trim hlast] at hb
  cases hb

/-- Stripping is not idempotent: `((A) )` loses its outer parentheses first and the blank between
them later. -/
theorem not_forall_stripOuterParens_stripOuterParens :
    ¬ ∀ text, stripOuterParens (stripOuterParens text) = stripOuterParens text := by
  intro h
  have htwice := h "((A) )".toList
  revert htwice
  decide +kernel

end Clausal
