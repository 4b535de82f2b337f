import Mathlib
import Clausal.Formula
import Clausal.Proofs.Formula.OuterParens

/-! # Only words matter

A text without blanks at its ends is its words with single spaces between them, but for wider gaps
(`Text.respaced_joined`).  Stripping outer parentheses looks at the ends of the text only, which are
the same characters in both, so it leaves texts that again differ in their gaps alone
(`Text.Respaced.peelParens`), even if a word was used up.  The words of a stripped text are
therefore those of its words joined by spaces and stripped (`words_stripOuterParens`), and texts
with the same words get the same answers (`answers_eq_of_words_eq`). -/

namespace Clausal

namespace Text

variable {base text : List Char} {c : Char}

/-! ### Ends of respaced texts -/

theorem Respaced.exists_cons (h : Respaced (c :: base) text) (hc : isBlank c = false) :
    ∃ rest, text = c :: rest ∧ Respaced base rest := by
  cases h with
  | keep _ h => exact ⟨_, rfl, h⟩
  | gap hb =>
    rw [hc] at hb
    cases hb

theorem Respaced.exists_base_cons (h : Respaced base (c :: text)) (hc : isBlank c = false) :
    ∃ rest, base = c :: rest ∧ Respaced rest text := by
  generalize hwhole : c :: text = whole at h
  cases h with
  | nil => cases hwhole
  | keep _ h =>
    cases hwhole
    exact ⟨_, rfl, h⟩
  | gap _ hne hgap _ =>
    obtain ⟨b, gap, rfl⟩ := List.exists_cons_of_ne_nil hne
    cases hwhole
    rw [hgap c List.mem_cons_self] at hc
    cases hc

theorem Respaced.reverse (h : Respaced base text) : Respaced base.reverse text.reverse := by
  induction h with
  | nil => exact .nil
  | keep hc _ ih =>
    rw [List.reverse_cons, List.reverse_cons]
    exact ih.append (.keep hc .nil)
  | @gap b gap base text hb hne hgap _ ih =>
    have hgap' : ∀ c ∈ gap.reverse, isBlank c = true := fun c hc => hgap c (List.mem_reverse.mp hc)
    have hlast : Respaced [b] gap.reverse := by
      rw [← List.append_nil gap.reverse]
      exact .gap hb (List.reverse_ne_nil_iff.mpr hne) hgap' .nil
    rw [List.reverse_cons, List.reverse_append]
    exact ih.append hlast

theorem Respaced.exists_concat (h : Respaced (base ++ [c]) text) (hc : isBlank c = false) :
    ∃ init, text = init ++ [c] ∧ Respaced base init := by
  have hreverse := h.reverse
  rw [List.reverse_append, List.reverse_singleton, List.singleton_append] at hreverse
  obtain ⟨rest, hrest, hbase⟩ := hreverse.exists_cons hc
  refine ⟨rest.reverse, ?_, ?_⟩
  · rw [← List.reverse_cons, ← hrest, List.reverse_reverse]
  · have hinit := hbase.reverse
    rwa [List.reverse_reverse] at hinit

theorem Respaced.getLast?_base (h : Respaced base text) (hc : isBlank c = false)
    (hlast : text.getLast? = some c) : base.getLast? = some c := by
  obtain ⟨init, rfl⟩ := List.getLast?_eq_some_iff.mp hlast
  have hreverse := h.reverse
  rw [List.reverse_append, List.reverse_singleton, List.singleton_append] at hreverse
  obtain ⟨rest, hrest, -⟩ := hreverse.exists_base_cons hc
  rw [← List.head?_reverse, hrest, List.head?_cons]

/-! ### Words joined by spaces -/

/-- The words with single spaces between them. -/
def joined (ws : List (List Char)) : List Char := [' '].intercalate ws

theorem joined_cons_cons (c : Char) (w : List Char) (ws : List (List Char)) :
    joined ((c :: w) :: ws) = c :: joined (w :: ws) := by
  cases ws with
  | nil => rfl
  | cons next ws => rw [joined, joined, List.intercalate_cons_cons, List.intercalate_cons_cons]; rfl

theorem joined_cons_of_ne_nil {ws : List (List Char)} (hne : ws ≠ []) (w : List Char) :
    joined (w :: ws) = w ++ ' ' :: joined ws := by
  rw [joined, List.intercalate_cons_of_ne_nil hne, List.append_assoc]
  rfl

/-- A blank begins a gap, and what is left behind the gap again has no blanks at its ends. -/
theorem exists_gap {b : Char} (hb : isBlank b = true)
    (hlast : ∀ c ∈ (b :: text).getLast?, isBlank c = false) :
    ∃ gap rest, b :: text = gap ++ rest ∧ gap ≠ [] ∧ (∀ c ∈ gap, isBlank c = true) ∧ rest ≠ [] ∧
      (∀ c ∈ rest.head?, isBlank c = false) ∧ ∀ c ∈ rest.getLast?, isBlank c = false := by
  have hcut : (b :: text).takeWhile isBlank ++ (b :: text).dropWhile isBlank = b :: text :=
    List.takeWhile_append_dropWhile
  refine ⟨(b :: text).takeWhile isBlank, (b :: text).dropWhile isBlank, hcut.symm, ?_, ?_, ?_, ?_,
    ?_⟩
  · rw [List.takeWhile_cons_of_pos hb]
    exact List.cons_ne_nil b _
  · exact fun c hc => List.mem_takeWhile_imp hc
  · intro hnil
    have hblank := List.dropWhile_eq_nil_iff.mp hnil _ (List.getLast_mem (List.cons_ne_nil b text))
    rw [hlast _ (List.getLast?_eq_some_getLast _)] at hblank
    cases hblank
  · intro c hc
    have hnot := List.head?_dropWhile_not isBlank (b :: text)
    rw [Option.mem_def.mp hc] at hnot
    simpa using hnot
  · intro c hc
    apply hlast c
    rw [← hcut]
    exact List.mem_getLast?_append_of_mem_getLast? hc

/-- A text without blanks at its ends is its words joined by spaces, but for wider gaps. -/
theorem respaced_joined {text : List Char} (hhead : ∀ c ∈ text.head?, isBlank c = false)
    (hlast : ∀ c ∈ text.getLast?, isBlank c = false) : Respaced (joined (words text)) text := by
  match text with
  | [] =>
    rw [words, runs_nil]
    exact .nil
  | [c] =>
    rw [words_eq_singleton (List.cons_ne_nil c []) (List.forall_mem_singleton.mpr (hhead c rfl))]
    exact .refl [c]
  | c :: d :: text =>
    have hc : ∀ b ∈ [c], isBlank b = false := List.forall_mem_singleton.mpr (hhead c rfl)
    by_cases hd : isBlank d = true
    · obtain ⟨gap, rest, hcut, hgap, hblank, hne, hfirst, hend⟩ := exists_gap hd hlast
      have hwords : words (c :: (gap ++ rest)) = [c] :: words rest := by
        rw [← List.singleton_append, words_append_gap [c] hgap hblank,
          words_eq_singleton (List.cons_ne_nil c []) hc, List.singleton_append]
      have hrest : words rest ≠ [] := fun hnil =>
        hne (by rw [← trim_eq_self hfirst hend, trim_eq_nil hnil])
      rw [hcut, hwords, joined_cons_of_ne_nil hrest]
      exact .keep (hhead c rfl) (.gap (by decide) hgap hblank (respaced_joined hfirst hend))
    · obtain ⟨w, ws, hwords, hmore⟩ := words_cons (Bool.eq_false_iff.mpr hd) text
      have hfirst : ∀ b ∈ (d :: text).head?, isBlank b = false := by
        rintro b ⟨⟩
        exact Bool.eq_false_iff.mpr hd
      rw [hmore c (hhead c rfl), joined_cons_cons, ← hwords]
      exact .keep (hhead c rfl) (respaced_joined hfirst hlast)
termination_by text.length
decreasing_by
  · have hlength := congrArg List.length hcut
    have hpos := List.length_pos_iff.mpr hgap
    simp only [List.length_append, List.length_cons] at hlength ⊢
    omega
  · exact Nat.lt_succ_self _

end Text

/-! ### Stripping -/

open Text (Respaced joined)

variable {text base : List Char}

theorem peelParens_eq_self_of_head (h : ∀ rest, text ≠ '(' :: '(' :: rest) :
    peelParens text = text := by
  unfold peelParens
  split
  · next rest => exact absurd rfl (h rest)
  · rfl

/-- Texts that differ in their gaps only are stripped of the same parentheses. -/
theorem Text.Respaced.peelParens (h : Respaced base text) :
    Respaced (peelParens base) (peelParens text) := by
  have hleft : Text.isBlank '(' = false := by decide
  have hright : Text.isBlank ')' = false := by decide
  fun_induction Clausal.peelParens base generalizing text with
  | case1 rest hlast ih =>
    obtain ⟨init, rfl⟩ := List.getLast?_eq_some_iff.mp hlast
    obtain ⟨more, rfl, hmore⟩ := h.exists_cons hleft
    obtain ⟨rest, rfl, hrest⟩ := hmore.exists_cons hleft
    obtain ⟨inner, rfl, hinner⟩ := hrest.exists_concat hright
    rw [List.dropLast_concat] at ih ⊢
    rw [← List.cons_append, peelParens_wrapped]
    exact ih (.keep hleft hinner)
  | case2 rest hlast =>
    obtain ⟨more, rfl, hmore⟩ := h.exists_cons hleft
    obtain ⟨rest', rfl, hrest⟩ := hmore.exists_cons hleft
    rwa [Clausal.peelParens, if_neg fun hlast' => hlast (hrest.getLast?_base hright hlast')]
  | case3 base hother =>
    have htext : ∀ rest, text ≠ '(' :: '(' :: rest := by
      rintro rest rfl
      obtain ⟨more, rfl, hmore⟩ := h.exists_base_cons hleft
      obtain ⟨rest', rfl, -⟩ := hmore.exists_base_cons hleft
      exact hother rest' rfl
    rwa [peelParens_eq_self_of_head htext]

/-- The words of a stripped text are those of its words, joined by spaces and stripped. -/
theorem words_stripOuterParens (text : List Char) :
    Text.words (stripOuterParens text) = Text.words (peelParens (joined (Text.words text))) := by
  have htrim : Respaced (joined (Text.words (Text.trim text))) (Text.trim text) :=
    Text.respaced_joined (fun _ => Text.head?_trim) fun _ => Text.getLast?_trim
  rw [Text.words_trim] at htrim
  exact htrim.peelParens.words_append []

theorem scan_stripOuterParens_congr {u : List Char} (h : Text.words text = Text.words u) :
    Token.scan (stripOuterParens text) = Token.scan (stripOuterParens u) := by
  rw [Token.scan, words_stripOuterParens, h, ← words_stripOuterParens, Token.scan]

/-- Texts with the same words have the same faults, the same words outside the propositional
fragment, and the same clauses or violations, whatever blanks stand around and between the words. -/
theorem answers_eq_of_words_eq {t u : List Char} (h : Text.words t = Text.words u) :
    Formula.faults t = Formula.faults u ∧ outsideWords t = outsideWords u ∧
      clausesOfText t = clausesOfText u := by
  have hstrip := scan_stripOuterParens_congr h
  refine ⟨?_, ?_, ?_⟩
  · rw [Formula.faults, Formula.faults, Token.scan, Token.scan, h]
  · rw [outsideWords, outsideWords, hstrip]
  · rw [clausesOfText, clausesOfText, hstrip]

/-- Two texts with other blanks between the same words, the last of which is used up by stripping. -/
theorem answers_eq_of_wide_gaps :
    let t := "((A and B) )".toList
    let u := "\t((A  and\n\nB)\u00a0) ".toList
    Text.words t = Text.words u ∧ t ≠ u ∧
      Formula.faults t = Formula.faults u ∧ outsideWords t = outsideWords u ∧
      clausesOfText t = clausesOfText u := by
  intro t u
  have hwords : Text.words t = Text.words u := by decide +kernel
  exact ⟨hwords, by decide +kernel, answers_eq_of_words_eq hwords⟩

end Clausal
