import Mathlib
import Clausal.Formula.WellFormed
import Clausal.Proofs.Formula.Violations
import Clausal.Proofs.Text.Lines

/-! # Messages of one line

What a message quotes comes from the tokens of a text, whose words have no blanks
(`Token.onLine_of_mem_scan`).  So each fault and each violation of a text is reported on a line of
its own (`isLine_of_mem_syntaxFaults`, `isLine_of_mem_violations`). -/

namespace Clausal

open Text (IsLine quoted)

/-! ### Words of tokens -/

/-- A fault may quote the token. -/
structure Token.OnLine (t : Token) : Prop where
  text : '\n' ∉ t.text
  word : '\n' ∉ t.kind.word

theorem Unary.notMem_word (op : Unary) : '\n' ∉ op.word := by
  cases op <;> decide

theorem Binary.notMem_word (op : Binary) : '\n' ∉ op.word := by
  cases op <;> decide

theorem Atom.ne_name (a : Atom) : '\n' ≠ a.name := by
  intro h
  have hblank := Text.isBlank_name a
  rw [← h] at hblank
  exact absurd hblank (by decide)

namespace Token

/-- An unknown word is the text of its token without the leading parentheses. -/
theorem word_of_unknown {text w : List Char} (h : (ofWord text).kind = .unknown w) :
    w = text.dropWhile (· = '(') := by
  have hkind : kindOf (text.dropWhile (· = '(')) (core text) = .unknown w := h
  unfold kindOf at hkind
  split at hkind
  · cases hkind
  · split_ifs at hkind with hempty hbody
    · obtain ⟨op, hop, -⟩ | ⟨op, hop, -⟩ | hunknown := kindOfWord_cases (core text)
      · rw [hop] at hkind
        cases hkind
      · rw [hop] at hkind
        cases hkind
      · rw [hunknown] at hkind
        cases hkind
        exact hbody
    · cases hkind
      rfl

theorem onLine_ofWord {w : List Char} (h : '\n' ∉ w) : (ofWord w).OnLine := by
  refine ⟨h, ?_⟩
  cases hkind : (ofWord w).kind with
  | atom a => simpa [Kind.word] using a.ne_name
  | unary op => exact op.notMem_word
  | binary op => exact op.notMem_word
  | unknown u =>
    rw [word_of_unknown hkind]
    exact fun hmem => h ((List.dropWhile_sublist _).mem hmem)
  | parens => exact List.not_mem_nil

theorem onLine_of_mem_scan {text : List Char} {t : Token} (h : t ∈ scan text) : t.OnLine := by
  obtain ⟨w, hw, rfl⟩ := List.mem_map.mp h
  exact onLine_ofWord (Text.notMem_of_isBlank (Text.isBlank_of_mem_words hw))

end Token

/-! ### Faults -/

/-- The pieces of text that the message of a fault quotes. -/
def SyntaxFault.quotes : SyntaxFault → List (List Char)
  | badStart word => [word]
  | adjacentAtoms atom previous => [[atom.name], [previous.name]]
  | missingOperand op previous => [op.word, previous]
  | misplacedUnary op previous => [op.word, [previous.name]]
  | unknownWord word => [word]
  | looseParens text => [text]
  | noFinalAtom | unclosed _ _ | unopened _ _ => []

theorem SyntaxFault.isLine_message {fault : SyntaxFault} (h : ∀ w ∈ fault.quotes, '\n' ∉ w) :
    IsLine fault.message := by
  have hnumber := Text.isLine_toString
  unfold IsLine at hnumber
  unfold message IsLine
  cases fault with
  | unclosed left right | unopened left right =>
    have hnumbers := And.intro (hnumber left) (hnumber right)
    simp_all
  | _ =>
    unfold quotes at h
    simp_all [quoted]

section Faults

variable {t : Token} {ts : List Token} {previous : Option Term} {text : List Char}

/-- A fault may quote the term. -/
def Term.OnLine : Term → Prop
  | atom _ => True
  | operator word => '\n' ∉ word

theorem onLine_after (ht : t.OnLine) (hprevious : ∀ p ∈ previous, p.OnLine) :
    ∀ p ∈ Term.after previous t.kind, p.OnLine := by
  have hword := ht.word
  cases hkind : t.kind with
  | atom a => simp [Term.after, Term.OnLine]
  | unary op => simpa [Term.after, Term.OnLine] using op.notMem_word
  | binary op => simpa [Term.after, Term.OnLine] using op.notMem_word
  | unknown w =>
    rw [hkind, Token.Kind.word] at hword
    cases previous with
    | none => simpa [Term.after, Term.OnLine] using hword
    | some p => simpa [Term.after] using hprevious p rfl
  | parens => simpa [Term.after] using hprevious

theorem notMem_of_mem_faultsAt (ht : t.OnLine) (hprevious : ∀ p ∈ previous, p.OnLine) :
    ∀ fault ∈ faultsAt previous t, ∀ w ∈ fault.quotes, '\n' ∉ w := by
  obtain ⟨htext, hword⟩ := ht
  unfold faultsAt
  split <;> simp_all [SyntaxFault.quotes, Token.Kind.word, Term.OnLine, Atom.ne_name]

theorem notMem_of_mem_sequenceFaults (hts : ∀ t ∈ ts, t.OnLine)
    (hprevious : ∀ p ∈ previous, p.OnLine) :
    ∀ fault ∈ sequenceFaults previous ts, ∀ w ∈ fault.quotes, '\n' ∉ w := by
  induction ts generalizing previous with
  | nil =>
    cases previous with
    | none => simp [sequenceFaults, SyntaxFault.quotes]
    | some p => cases p <;> simp [sequenceFaults, SyntaxFault.quotes]
  | cons t ts ih =>
    obtain ⟨ht, hrest⟩ := List.forall_mem_cons.mp hts
    rw [sequenceFaults, List.forall_mem_append]
    exact ⟨notMem_of_mem_faultsAt ht hprevious, ih hrest (onLine_after ht hprevious)⟩

/-- Each fault of a text is reported on a line of its own. -/
theorem isLine_of_mem_syntaxFaults {fault : SyntaxFault}
    (h : fault ∈ syntaxFaults (Token.scan text)) : IsLine fault.message := by
  have hts : ∀ t ∈ Token.scan text, t.OnLine := fun t => Token.onLine_of_mem_scan
  apply SyntaxFault.isLine_message
  obtain hfault | hfault := List.mem_append.mp h
  · exact notMem_of_mem_sequenceFaults hts (by simp) fault hfault
  · unfold parenFaults at hfault
    dsimp only at hfault
    split_ifs at hfault <;> simp_all [SyntaxFault.quotes]

end Faults

/-! ### Violations -/

/-- The pieces of text that the message of a violation quotes. -/
def ClauseFault.quotes : ClauseFault → List (List Char)
  | excludedConnective op | connectiveInside op => [op.word]
  | notWithoutAtom text | unexpectedWord text => [text]
  | orOutsideClause | finalNot | noAnd | strayAnd | emptySpan | unbalanced | noClauses => []

theorem ClauseFault.isLine_message {fault : ClauseFault} (h : ∀ w ∈ fault.quotes, '\n' ∉ w) :
    IsLine fault.message := by
  unfold message IsLine
  cases fault <;>
  · unfold quotes at h
    simp_all [quoted]

/-- What a token in its place is reported for quotes the token or a connective. -/
theorem Token.Place.notMem_of_mem_faults {p : Place} (h : p.token.OnLine) :
    ∀ fault ∈ p.faults, ∀ w ∈ fault.quotes, '\n' ∉ w := by
  have hlabel : '\n' ∉ p.token.label := by
    unfold Token.label
    split_ifs
    · exact h.text
    · exact h.word
  unfold faults wordFaults Token.wordFaults
  simp only [List.forall_mem_append]
  refine ⟨⟨?_, ⟨⟨?_, ?_⟩, ?_⟩, ?_⟩, ?_⟩
  · split_ifs <;> simp [ClauseFault.quotes, h.text]
  · exact List.forall_mem_map.mpr fun op _ => by simpa [ClauseFault.quotes] using op.notMem_word
  · exact List.forall_mem_map.mpr fun op _ => by simpa [ClauseFault.quotes] using op.notMem_word
  · split_ifs <;> simp [ClauseFault.quotes]
  · split_ifs <;> simp [ClauseFault.quotes, hlabel]
  · simp [ClauseFault.quotes]

/-- Each violation of a text is reported on a line of its own. -/
theorem isLine_of_mem_violations {text : List Char} {fault : ClauseFault}
    (h : fault ∈ violations text) : IsLine fault.message := by
  apply ClauseFault.isLine_message
  by_cases hconjuncts : fault.ofConjuncts = true
  · -- the violations about conjuncts quote nothing
    cases fault <;> simp_all [ClauseFault.ofConjuncts, ClauseFault.quotes]
  · have hfilter : fault ∈ (violations text).filter (!·.ofConjuncts) :=
      List.mem_filter.mpr ⟨h, by simpa using hconjuncts⟩
    rw [filter_violations, List.mem_append, List.mem_flatMap] at hfilter
    obtain ⟨p, hp, hfault⟩ | hfinal := hfilter
    · have htoken : p.token ∈ Token.scan (stripOuterParens text) := by
        rw [← Token.map_token_places (Token.scan _)]
        exact List.mem_map_of_mem hp
      exact Token.Place.notMem_of_mem_faults (Token.onLine_of_mem_scan htoken) fault hfault
    · have hfixed : fault = .finalNot ∨ fault = .unbalanced := by
        unfold Token.finalFaults at hfinal
        split_ifs at hfinal <;> simp_all
      obtain rfl | rfl := hfixed <;> simp [ClauseFault.quotes]

end Clausal
