import Mathlib
import Clausal.Atom
import Clausal.Text.Blank

/-! # Blanks in a text

No alphanumeric character is a blank (`isBlank_of_isAlphanumeric`), so the name of an atom is never
cut.  The words of a text hold all its characters but the blanks (`flatten_words`).  A text may have
more blanks than it needs: what ignores all blanks reads it the same wherever blanks are inserted
(`WithBlanks`), and what reads words reads it the same however wide the gaps between its words are
(`Respaced`). -/

namespace Clausal

theorem Atom.name_ne {c : Char} (h : Text.isAlphanumeric c = false) (a : Atom) : a.name ≠ c := by
  rintro rfl
  rw [a.alphanumeric] at h
  cases h

namespace Text

variable {base text gap : List Char} {c : Char}

/-! ### Blanks and names -/

/-- The code points of the blanks. -/
def blankPoints : List ℕ :=
  [0x9, 0xA, 0xB, 0xC, 0xD, 0x20, 0x85, 0xA0, 0x1680, 0x2000, 0x2001, 0x2002, 0x2003, 0x2004,
    0x2005, 0x2006, 0x2007, 0x2008, 0x2009, 0x200A, 0x2028, 0x2029, 0x202F, 0x205F, 0x3000]

theorem toNat_mem_blankPoints (h : isBlank c = true) : c.toNat ∈ blankPoints := by
  simp only [isBlank, Bool.or_eq_true, Bool.and_eq_true, decide_eq_true_eq, beq_iff_eq] at h
  simp only [blankPoints, List.mem_cons, List.not_mem_nil, or_false]
  omega

theorem inRanges_blankPoints : ∀ n ∈ blankPoints, inRanges alphanumericRanges n = false := by
  decide +kernel

theorem isBlank_of_isAlphanumeric (h : isAlphanumeric c = true) : isBlank c = false := by
  rw [Bool.eq_false_iff]
  intro hblank
  have hnot : isAlphanumeric c = false := inRanges_blankPoints _ (toNat_mem_blankPoints hblank)
  rw [hnot] at h
  cases h

theorem isBlank_name (a : Atom) : isBlank a.name = false := isBlank_of_isAlphanumeric a.alphanumeric

/-! ### The characters of words -/

theorem flatten_splitOnP (p : Char → Bool) (text : List Char) :
    (text.splitOnP p).flatten = text.filter (fun c => !p c) := by
  induction text with
  | nil => rfl
  | cons c text ih =>
    obtain ⟨run, runs, hsplit⟩ := List.exists_cons_of_ne_nil (List.splitOnP_ne_nil p text)
    rw [hsplit] at ih
    rw [List.splitOnP_cons_eq_if_modifyHead, hsplit]
    by_cases hc : p c = true
    · rw [if_pos hc, List.flatten_cons, List.nil_append, ih, List.filter_cons_of_neg (by simp [hc])]
    · rw [if_neg hc, List.modifyHead_cons, List.flatten_cons, List.cons_append,
        ← List.flatten_cons, ih, List.filter_cons_of_pos (by simp [hc])]

/-- The words of a text hold its characters that are not blank. -/
theorem flatten_words (text : List Char) : (words text).flatten = withoutBlanks text := by
  rw [words, runs, List.flatten_filter_not_isEmpty, flatten_splitOnP, withoutBlanks]

/-- A text without blanks is a single word. -/
theorem words_eq_singleton (hne : text ≠ []) (h : ∀ c ∈ text, isBlank c = false) :
    words text = [text] := by
  rw [words, runs, List.splitOnP_eq_singleton h]
  simp [hne]

theorem sum_count_words (hc : isBlank c = false) (text : List Char) :
    ((words text).map (·.count c)).sum = text.count c := by
  rw [← List.count_flatten, flatten_words, withoutBlanks, List.count_filter (by simp [hc])]

/-! ### Blanks anywhere -/

/-- The text is the base with blanks inserted anywhere. -/
inductive WithBlanks : List Char → List Char → Prop
  | nil : WithBlanks [] []
  | keep (c : Char) {base text : List Char} :
    WithBlanks base text → WithBlanks (c :: base) (c :: text)
  | insert {c : Char} {base text : List Char} :
    isBlank c = true → WithBlanks base text → WithBlanks base (c :: text)

theorem WithBlanks.refl : (base : List Char) → WithBlanks base base
  | [] => .nil
  | c :: base => .keep c (refl base)

theorem WithBlanks.withoutBlanks (h : WithBlanks base text) :
    withoutBlanks text = withoutBlanks base := by
  induction h with
  | nil => rfl
  | keep c _ ih =>
    unfold Text.withoutBlanks at ih ⊢
    rw [List.filter_cons, List.filter_cons, ih]
  | insert hc _ ih =>
    unfold Text.withoutBlanks at ih ⊢
    rw [List.filter_cons_of_neg (by simp [hc]), ih]

theorem withoutBlanks_eq_self (h : ∀ c ∈ text, isBlank c = false) : withoutBlanks text = text := by
  unfold withoutBlanks
  rw [List.filter_eq_self]
  intro c hc
  rw [h c hc]
  rfl

/-! ### Blanks between words -/

/-- The text is the base with each blank replaced by one or more blanks. -/
inductive Respaced : List Char → List Char → Prop
  | nil : Respaced [] []
  | keep {c : Char} {base text : List Char} :
    isBlank c = false → Respaced base text → Respaced (c :: base) (c :: text)
  | gap {b : Char} {gap base text : List Char} : isBlank b = true → gap ≠ [] →
    (∀ c ∈ gap, isBlank c = true) → Respaced base text → Respaced (b :: base) (gap ++ text)

theorem Respaced.refl (text : List Char) : Respaced text text := by
  induction text with
  | nil => exact .nil
  | cons c text ih =>
    by_cases hc : isBlank c = true
    · have hgap : ∀ b ∈ [c], isBlank b = true := List.forall_mem_singleton.mpr hc
      exact .gap hc (List.cons_ne_nil c []) hgap ih
    · exact .keep (Bool.eq_false_iff.mpr hc) ih

theorem Respaced.append {base' text' : List Char} (h : Respaced base text)
    (h' : Respaced base' text') : Respaced (base ++ base') (text ++ text') := by
  induction h with
  | nil => exact h'
  | keep hc _ ih => exact .keep hc ih
  | gap hb hne hgap _ ih =>
    rw [List.append_assoc]
    exact .gap hb hne hgap ih

/-- Blanks in front of a text add no word. -/
theorem words_append_of_blank (hgap : ∀ c ∈ gap, isBlank c = true) (text : List Char) :
    words (gap ++ text) = words text := by
  induction gap with
  | nil => rfl
  | cons c gap ih =>
    obtain ⟨hc, hrest⟩ := List.forall_mem_cons.mp hgap
    rw [List.cons_append, words, runs_cons_of_separates hc]
    exact ih hrest

/-- A gap of blanks separates like a single blank. -/
theorem words_append_gap (before : List Char) (hne : gap ≠ [])
    (hgap : ∀ c ∈ gap, isBlank c = true) (after : List Char) :
    words (before ++ (gap ++ after)) = words before ++ words after := by
  obtain ⟨b, rest, rfl⟩ := List.exists_cons_of_ne_nil hne
  obtain ⟨hb, hrest⟩ := List.forall_mem_cons.mp hgap
  rw [List.cons_append, words, runs_append_cons hb]
  exact congrArg (words before ++ ·) (words_append_of_blank hrest after)

theorem Respaced.words_append (h : Respaced base text) (met : List Char) :
    words (met ++ text) = words (met ++ base) := by
  -- a word is met character by character, so the part of it that was met goes along
  induction h generalizing met with
  | nil => rfl
  | @keep c base text _ _ ih =>
    have hmet := ih (met ++ [c])
    rwa [List.append_assoc, List.append_assoc, List.singleton_append, List.singleton_append] at hmet
  | @gap b gap base text hb hne hgap _ ih =>
    have hbase : words (met ++ b :: base) = words met ++ words base := runs_append_cons hb met base
    rw [words_append_gap met hne hgap, hbase]
    exact congrArg (words met ++ ·) (ih [])

/-- A text has the words of its base, whatever blanks stand around and between them. -/
theorem Respaced.words_eq {lead trail : List Char} (h : Respaced base text)
    (hlead : ∀ c ∈ lead, isBlank c = true) (htrail : ∀ c ∈ trail, isBlank c = true) :
    words (lead ++ text ++ trail) = words base := by
  have htext : words text = words base := h.words_append []
  rw [List.append_assoc, words_append_of_blank hlead]
  by_cases hne : trail = []
  · rw [hne, List.append_nil, htext]
  · have hwords := words_append_gap text hne htrail []
    have hnil : words [] = [] := runs_nil isBlank
    rw [List.append_nil, hnil, List.append_nil] at hwords
    exact hwords.trans htext

end Text
end Clausal
