import Mathlib
import Clausal.Formula
import Clausal.Proofs.Formula.Conjunctive
import Clausal.Proofs.Formula.InParens

/-! # Accepted texts

The formula of an accepted text keeps the text without its outer parentheses, which are stripped
again whenever the formula is read.  As each word of the text has a letter, the second stripping
finds nothing (`Formula.IsWellFormed.strip_strip`).  So the formula answers like the text
(`Formula.represents_of_parse`), and its own text is accepted as the same formula
(`Formula.parse_text`). -/

namespace Clausal

namespace Formula

variable {text : List Char} {f : Formula}

theorem parse_isOk_iff : (∃ f, parse text = .ok f) ↔ faults text = .ok [] := by
  unfold parse
  constructor
  · rintro ⟨f, hf⟩
    split at hf
    · cases hf
    · next hfaults => exact hfaults
    · cases hf
  · intro hfaults
    exact ⟨⟨stripOuterParens text⟩, by rw [hfaults]⟩

theorem IsWellFormed.strip_strip (h : IsWellFormed text) :
    stripOuterParens (stripOuterParens text) = stripOuterParens text :=
  stripOuterParens_of_not_uncoversBlank h.not_uncoversBlank

theorem isWellFormed_of_parse (h : parse text = .ok f) : IsWellFormed text := by
  have hfaults := parse_isOk_iff.mp ⟨f, h⟩
  apply syntaxFaults_eq_nil_iff.mp
  unfold faults at hfaults
  dsimp only at hfaults
  split_ifs at hfaults
  exact Except.ok.inj hfaults

theorem stripOuterParens_text (h : parse text = .ok f) :
    stripOuterParens f.text = stripOuterParens text := by
  rw [text_of_parse h]
  exact (isWellFormed_of_parse h).strip_strip

/-- The formula answers like the text. -/
structure Represents (f : Formula) (text : List Char) : Prop where
  isPropositional_eq : f.isPropositional = Clausal.isPropositional text
  outsideWords_eq : f.outsideWords = Clausal.outsideWords text
  requireFragment_eq : f.requireFragment =
    if Clausal.isPropositional text = true then .ok ()
    else .error (.notPropositional (Clausal.outsideWords text))
  reading_eq : Clausal.isPropositional text = true → f.reading = .ok (clausesOfText text)

theorem represents_of_parse (h : parse text = .ok f) : f.Represents text := by
  have hstrip := stripOuterParens_text h
  have houtside : f.outsideWords = Clausal.outsideWords text := by
    rw [outsideWords, Clausal.outsideWords, hstrip]
    rfl
  have hpropositional : f.isPropositional = Clausal.isPropositional text := by
    rw [isPropositional, Clausal.isPropositional, Clausal.isPropositional, ← houtside]
    rfl
  have hclauses : clausesOfText f.text = clausesOfText text := by
    rw [clausesOfText, clausesOfText, hstrip]
  refine ⟨hpropositional, houtside, ?_, fun htext => ?_⟩
  · rw [requireFragment, hpropositional, houtside]
  · rw [reading, requireFragment, hpropositional, if_pos htext, hclauses]
    rfl

/-! ### Reading the formula as a text -/

/-- The text that a formula keeps is accepted in turn, and nothing is stripped off it any more. -/
theorem parse_of_parse (h : parse text = .ok f) : parse f.text = .ok f := by
  have hwell := isWellFormed_of_parse h
  have htext := text_of_parse h
  have hfaults : syntaxFaults (Token.scan f.text) = [] := by
    rw [syntaxFaults_eq_nil_iff, htext]
    exact (isWellFormed_stripOuterParens_iff hwell.not_uncoversBlank).mpr hwell
  rw [parse_of_syntaxFaults hfaults, stripOuterParens_text h, ← htext]

/-- The text of an accepted formula is accepted again, as a formula with the same text, in the same
fragment and with the same clauses or faults. -/
theorem parse_text (h : parse text = .ok f) :
    ∃ again, parse f.text = .ok again ∧ again.text = f.text ∧
      again.isPropositional = f.isPropositional ∧ again.reading = f.reading ∧
      clausesOfText again.text = clausesOfText f.text :=
  ⟨f, parse_of_parse h, rfl, rfl, rfl, rfl⟩

/-- A text that loses two parentheses which do not match each other. -/
theorem parse_text_of_torn_groups :
    let text := "((A or B)) and (not C)".toList
    let kept := "(A or B)) and (not C".toList
    parse text = .ok ⟨kept⟩ ∧
      ∃ again, parse kept = .ok again ∧ again.text = kept ∧
        again.isPropositional = isPropositional ⟨kept⟩ ∧ again.reading = reading ⟨kept⟩ ∧
        clausesOfText again.text = clausesOfText kept := by
  intro text kept
  have hparse : parse text = .ok ⟨kept⟩ := by decide +kernel
  exact ⟨hparse, parse_text hparse⟩

end Formula

end Clausal
