import Mathlib
import Clausal.Formula.Token
import Clausal.Formula.OuterParens

/-! # Symbols

The symbols of a text are its parentheses and its words without them: a word of the text falls
into the parentheses that lead it, its core and the parentheses that trail it (`Symbol.scan`).
Neither blanks at the ends nor the removal of outer parentheses disturbs the others: a text has the
symbols of the stripped text, with equally many parentheses before and behind
(`scan_stripOuterParens`). -/

namespace Clausal

/-! ### Runs and ends of a text -/

namespace Text

variable {p : Char → Bool} {text : List Char} {c : Char}

theorem dropTrailing_concat (p : Char → Bool) (text : List Char) (c : Char) :
    dropTrailing p (text ++ [c]) = if p c = true then dropTrailing p text else text ++ [c] := by
  unfold dropTrailing
  rw [List.reverse_append, List.reverse_singleton, List.singleton_append, List.dropWhile_cons]
  split
  · rfl
  · simp

theorem length_dropTrailing_le (p : Char → Bool) (text : List Char) :
    (dropTrailing p text).length ≤ text.length := by
  simpa [dropTrailing] using (List.dropWhile_sublist (l := text.reverse) p).length_le

theorem runs_dropWhile (p : Char → Bool) (text : List Char) :
    runs p (text.dropWhile p) = runs p text := by
  induction text with
  | nil => rfl
  | cons c text ih =>
    by_cases hc : p c = true
    · rw [List.dropWhile_cons_of_pos hc, ih, runs_cons_of_separates hc]
    · rw [List.dropWhile_cons_of_neg hc]

theorem runs_dropTrailing (p : Char → Bool) (text : List Char) :
    runs p (dropTrailing p text) = runs p text := by
  induction text using List.reverseRecOn with
  | nil => rfl
  | append_singleton text c ih =>
    rw [dropTrailing_concat]
    by_cases hc : p c = true
    · rw [if_pos hc, ih, runs_append_cons hc, runs_nil, List.append_nil]
    · rw [if_neg hc]

theorem words_trim (text : List Char) : words (trim text) = words text := by
  unfold words trim
  rw [runs_dropTrailing, runs_dropWhile]

/-- A character that separates nothing lengthens the last run. -/
theorem splitOnP_concat (hc : p c = false) (text : List Char) :
    ∃ init last, text.splitOnP p = init ++ [last] ∧
      (text ++ [c]).splitOnP p = init ++ [last ++ [c]] := by
  induction text with
  | nil => exact ⟨[], [], by simp [List.splitOnP_cons_eq_if_modifyHead, hc]⟩
  | cons b text ih =>
    obtain ⟨init, last, hbefore, hafter⟩ := ih
    rw [List.cons_append, List.splitOnP_cons_eq_if_modifyHead,
      List.splitOnP_cons_eq_if_modifyHead, hbefore, hafter]
    by_cases hb : p b = true
    · rw [if_pos hb, if_pos hb]
      exact ⟨[] :: init, last, rfl, rfl⟩
    · rw [if_neg hb, if_neg hb]
      cases init with
      | nil => exact ⟨[], b :: last, rfl, rfl⟩
      | cons first init => exact ⟨(b :: first) :: init, last, rfl, rfl⟩

/-- A character before a text that does not begin with a blank lengthens the first word. -/
theorem words_cons (hc : isBlank c = false) (text : List Char) :
    ∃ w ws, words (c :: text) = (c :: w) :: ws ∧
      ∀ b, isBlank b = false → words (b :: c :: text) = (b :: c :: w) :: ws := by
  obtain ⟨run, rest, hsplit⟩ := List.exists_cons_of_ne_nil (List.splitOnP_ne_nil isBlank text)
  refine ⟨run, rest.filter (fun run => !run.isEmpty), ?_, fun b hb => ?_⟩
  · simp [words, runs, List.splitOnP_cons_eq_if_modifyHead, hc, hsplit]
  · simp [words, runs, List.splitOnP_cons_eq_if_modifyHead, hb, hc, hsplit]

/-- A character behind a text that does not end in a blank lengthens the last word. -/
theorem words_concat (hc : isBlank c = false) (text : List Char) :
    ∃ ws w, words (text ++ [c]) = ws ++ [w ++ [c]] ∧
      ∀ b, isBlank b = false → words (text ++ [c] ++ [b]) = ws ++ [w ++ [c] ++ [b]] := by
  obtain ⟨init, last, -, hsplit⟩ := splitOnP_concat hc text
  refine ⟨init.filter (fun run => !run.isEmpty), last, ?_, fun b hb => ?_⟩
  · simp [words, runs, hsplit]
  · obtain ⟨init', last', hbefore, hafter⟩ := splitOnP_concat hb (text ++ [c])
    rw [hsplit] at hbefore
    obtain ⟨rfl, ⟨⟩⟩ := List.append_inj' hbefore rfl
    rw [words, runs, hafter]
    simp

end Text

/-- A parenthesis, or a word that carries none. -/
inductive Symbol where
  | left
  | right
  | word (w : List Char)
deriving DecidableEq

namespace Symbol

/-- The symbols of a word: its leading parentheses, its core and its trailing parentheses. -/
def ofWord (w : List Char) : List Symbol :=
  let body := w.dropWhile (· = '(')
  let core := Text.dropTrailing (· = ')') body
  List.replicate (w.length - body.length) left ++
    ((if core = [] then [] else [word core]) ++ List.replicate (body.length - core.length) right)

/-- The symbols of a text. -/
def scan (text : List Char) : List Symbol := (Text.words text).flatMap ofWord

theorem ofWord_nil : ofWord [] = [] := rfl

theorem ofWord_left (w : List Char) : ofWord ('(' :: w) = left :: ofWord w := by
  have hbody : ('(' :: w).dropWhile (· = '(') = w.dropWhile (· = '(') := rfl
  have hlength : (w.dropWhile (· = '(')).length ≤ w.length := (List.dropWhile_sublist _).length_le
  unfold ofWord
  dsimp only
  rw [hbody, List.length_cons, Nat.sub_add_comm hlength, List.replicate_succ]
  rfl

theorem dropWhile_concat_right (w : List Char) :
    (w ++ [')']).dropWhile (· = '(') = w.dropWhile (· = '(') ++ [')'] := by
  rw [List.dropWhile_append]
  split
  · next h =>
    rw [List.isEmpty_iff.mp h]
    rfl
  · rfl

theorem ofWord_right (w : List Char) : ofWord (w ++ [')']) = ofWord w ++ [right] := by
  have hlength := Text.length_dropTrailing_le (· = ')') (w.dropWhile (· = '('))
  have hcore : Text.dropTrailing (· = ')') (w.dropWhile (· = '(') ++ [')']) =
      Text.dropTrailing (· = ')') (w.dropWhile (· = '(')) :=
    (Text.dropTrailing_concat _ _ _).trans (if_pos rfl)
  unfold ofWord
  dsimp only
  rw [dropWhile_concat_right, hcore, List.length_append, List.length_append, List.length_singleton,
    Nat.add_sub_add_right, Nat.sub_add_comm hlength, List.replicate_succ']
  simp only [List.append_assoc]

/-- Empty runs have no symbols. -/
theorem scan_eq_flatMap_splitOnP (text : List Char) :
    scan text = (text.splitOnP Text.isBlank).flatMap ofWord := by
  unfold scan Text.words Text.runs
  induction text.splitOnP Text.isBlank with
  | nil => rfl
  | cons run runs ih =>
    cases run with
    | nil => simpa [ofWord_nil] using ih
    | cons c run => simpa using ih

theorem scan_left (text : List Char) : scan ('(' :: text) = left :: scan text := by
  obtain ⟨run, runs, hsplit⟩ :=
    List.exists_cons_of_ne_nil (List.splitOnP_ne_nil Text.isBlank text)
  rw [scan_eq_flatMap_splitOnP, scan_eq_flatMap_splitOnP, List.splitOnP_cons_eq_if_modifyHead,
    if_neg (by decide), hsplit, List.modifyHead_cons, List.flatMap_cons, ofWord_left]
  rfl

theorem scan_right (text : List Char) : scan (text ++ [')']) = scan text ++ [right] := by
  obtain ⟨init, last, hbefore, hafter⟩ :=
    Text.splitOnP_concat (p := Text.isBlank) (c := ')') (by decide) text
  rw [scan_eq_flatMap_splitOnP, scan_eq_flatMap_splitOnP, hbefore, hafter]
  simp [ofWord_right]

theorem scan_trim (text : List Char) : scan (Text.trim text) = scan text := by
  rw [scan, Text.words_trim, scan]

variable {m n : ℕ} {outer middle inner : List Symbol}

/-- The text is wrapped in `n` more parentheses on each side than the other. -/
def Wraps (n : ℕ) (outer inner : List Symbol) : Prop :=
  outer = List.replicate n left ++ (inner ++ List.replicate n right)

theorem Wraps.zero_iff : Wraps 0 outer inner ↔ outer = inner := by
  simp [Wraps]

theorem Wraps.succ_iff : Wraps (n + 1) outer inner ↔
    ∃ middle, outer = left :: (middle ++ [right]) ∧ Wraps n middle inner := by
  unfold Wraps
  rw [List.replicate_succ, List.replicate_succ' (n := n) (a := right)]
  constructor
  · rintro rfl
    refine ⟨_, ?_, rfl⟩
    simp only [List.cons_append, List.append_assoc]
  · rintro ⟨middle, rfl, rfl⟩
    simp only [List.cons_append, List.append_assoc]

theorem Wraps.trans (h₁ : Wraps m outer middle)
    (h₂ : Wraps n middle inner) : Wraps (m + n) outer inner := by
  unfold Wraps at h₁ h₂ ⊢
  rw [h₁, h₂, List.replicate_add, Nat.add_comm m n, List.replicate_add]
  simp only [List.append_assoc]

theorem scan_peelParens (text : List Char) : ∃ n, Wraps n (scan text) (scan (peelParens text)) := by
  fun_induction peelParens text with
  | case1 rest hlast ih =>
    obtain ⟨n, hn⟩ := ih
    have hrest : '(' :: '(' :: rest = '(' :: (('(' :: rest.dropLast) ++ [')']) := by
      rw [List.cons_append, List.dropLast_append_getLast? _ hlast]
    refine ⟨n + 1, ?_⟩
    rw [hrest, scan_left, scan_right]
    exact Wraps.succ_iff.mpr ⟨_, rfl, hn⟩
  | case2 rest hlast => exact ⟨0, Wraps.zero_iff.mpr rfl⟩
  | case3 text hother => exact ⟨0, Wraps.zero_iff.mpr rfl⟩

/-- Stripping a text takes away as many left parentheses in front as right ones behind. -/
theorem scan_stripOuterParens (text : List Char) :
    ∃ n, Wraps n (scan text) (scan (stripOuterParens text)) := by
  rw [stripOuterParens, ← scan_trim]
  exact scan_peelParens (Text.trim text)

end Symbol
end Clausal
