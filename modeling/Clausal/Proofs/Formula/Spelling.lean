import Mathlib
import Clausal.Formula.Spelling
import Clausal.Proofs.Formula.Symbol
import Clausal.Proofs.Formula.Token
import Clausal.Proofs.Text.Blank

/-! # The tokens of spelled formulas

A word is cut at its parentheses: what stands between them decides its kind
(`Token.ofWord_wrapped`).  So the tokens of a spelled literal are known (`Literal.scan_spell`), also
with parentheses before and behind it, and with them those of a spelled clause
(`scan_intercalate_or`) and of a conjunction (`Conjunct.scan_spellConjunction`). -/

namespace Clausal

open Text (isBlank isBlank_name)

/-! ### Words in parentheses -/

namespace Text

theorem dropTrailing_append_replicate (p : Char → Bool) (text : List Char) {c : Char} (n : ℕ)
    (hc : p c = true) : dropTrailing p (text ++ List.replicate n c) = dropTrailing p text := by
  induction n with
  | zero => rw [List.replicate_zero, List.append_nil]
  | succ n ih => rw [List.replicate_succ', ← List.append_assoc, dropTrailing_concat, if_pos hc, ih]

theorem dropTrailing_eq_self {p : Char → Bool} {text : List Char}
    (h : ∀ c ∈ text.getLast?, p c = false) : dropTrailing p text = text := by
  rcases List.eq_nil_or_concat text with rfl | ⟨init, c, rfl⟩
  · rfl
  · have hc : p c = false := h c (by simp)
    rw [List.concat_eq_append, dropTrailing_concat, if_neg (by simp [hc])]

theorem dropWhile_replicate_append {p : Char → Bool} {c : Char} (m : ℕ) (hc : p c = true)
    (text : List Char) : (List.replicate m c ++ text).dropWhile p = text.dropWhile p :=
  List.dropWhile_append_of_pos fun d hd => by rw [List.eq_of_mem_replicate hd, hc]

end Text

namespace Token

/-- A core that neither begins nor ends with a parenthesis is what is left of a word without the
parentheses around it. -/
theorem ofWord_wrapped {core : List Char} (hne : core ≠ [])
    (hhead : ∀ c ∈ core.head?, c ≠ '(') (hlast : ∀ c ∈ core.getLast?, c ≠ ')') (m n : ℕ) :
    ofWord (List.replicate m '(' ++ core ++ List.replicate n ')') =
      ⟨List.replicate m '(' ++ core ++ List.replicate n ')', m, n,
        kindOf (core ++ List.replicate n ')') core⟩ := by
  have hbody : (List.replicate m '(' ++ core ++ List.replicate n ')').dropWhile (· = '(') =
      core ++ List.replicate n ')' := by
    obtain ⟨c, rest, rfl⟩ := List.exists_cons_of_ne_nil hne
    have hc : c ≠ '(' := hhead c rfl
    rw [List.append_assoc, Text.dropWhile_replicate_append m (decide_eq_true rfl),
      List.cons_append, List.dropWhile_cons_of_neg (by simpa using hc)]
  have hcore : Text.dropTrailing (· = ')') (core ++ List.replicate n ')') = core := by
    rw [Text.dropTrailing_append_replicate _ _ _ (decide_eq_true rfl)]
    apply Text.dropTrailing_eq_self
    intro c hc
    exact decide_eq_false (hlast c hc)
  unfold ofWord
  simp only [hbody, hcore, List.length_append, List.length_replicate]
  congr 1 <;> omega

/-- A connective without parentheses. -/
def junctor (op : Binary) : Token := ⟨op.word, 0, 0, .binary op⟩

theorem ofWord_atom (m n : ℕ) (a : Atom) :
    ofWord (List.replicate m '(' ++ [a.name] ++ List.replicate n ')') =
      ⟨List.replicate m '(' ++ [a.name] ++ List.replicate n ')', m, n, .atom a⟩ := by
  have hkind : ∀ body, kindOf body [a.name] = .atom a := by
    intro body
    simp [kindOf, Atom.ofText?]
  rw [ofWord_wrapped (by simp), hkind]
  · intro c hc
    cases hc
    exact Atom.name_ne (Text.isAlphanumeric_eq_false (by simp)) a
  · intro c hc
    cases hc
    exact Atom.name_ne (Text.isAlphanumeric_eq_false (by simp)) a

theorem ofWord_not (m : ℕ) :
    ofWord (List.replicate m '(' ++ Unary.not.word) =
      ⟨List.replicate m '(' ++ Unary.not.word, m, 0, .unary .not⟩ := by
  have hletters : Unary.not.word = ['n', 'o', 't'] := by decide
  have hkind : kindOf Unary.not.word Unary.not.word = .unary .not := by decide
  have hword := @ofWord_wrapped Unary.not.word (by simp [hletters]) (by simp [hletters])
    (by simp [hletters]) m 0
  rwa [List.replicate_zero, List.append_nil, List.append_nil, hkind] at hword

theorem ofWord_junctor (op : Binary) : ofWord op.word = junctor op := by
  cases op <;> decide

/-! ### Texts, word by word -/

theorem scan_append_blank {b : Char} (hb : isBlank b = true) (before after : List Char) :
    scan (before ++ b :: after) = scan before ++ scan after := by
  rw [scan, Text.words, Text.runs_append_cons hb, List.map_append]
  rfl

theorem scan_word {w : List Char} (hne : w ≠ []) (hw : ∀ c ∈ w, isBlank c = false) :
    scan w = [ofWord w] := by
  rw [scan, Text.words_eq_singleton hne hw, List.map_singleton]

theorem isBlank_replicate {c : Char} (hc : isBlank c = false) (n : ℕ) :
    ∀ d ∈ List.replicate n c, isBlank d = false := fun d hd => by
  rw [List.eq_of_mem_replicate hd, hc]

theorem scan_junctor (op : Binary) : scan op.word = [junctor op] := by
  have hne : op.word ≠ [] := by cases op <;> decide
  have hletters : op.word.all Text.isAlphanumeric = true := by cases op <;> decide
  have hblank : ∀ c ∈ op.word, isBlank c = false := fun c hc =>
    Text.isBlank_of_isAlphanumeric (List.all_eq_true.mp hletters c hc)
  rw [scan_word hne hblank, ofWord_junctor]

theorem scan_not (m : ℕ) : scan (List.replicate m '(' ++ Unary.not.word) =
    [⟨List.replicate m '(' ++ Unary.not.word, m, 0, .unary .not⟩] := by
  have hne : List.replicate m '(' ++ Unary.not.word ≠ [] :=
    List.append_ne_nil_of_right_ne_nil _ (by decide)
  have hletters : Unary.not.word.all Text.isAlphanumeric = true := by decide
  have hword : ∀ c ∈ Unary.not.word, isBlank c = false := fun c hc =>
    Text.isBlank_of_isAlphanumeric (List.all_eq_true.mp hletters c hc)
  have hleft := isBlank_replicate (c := '(') (by decide) m
  rw [scan_word hne (List.forall_mem_append.mpr ⟨hleft, hword⟩), ofWord_not]

theorem scan_atom (m n : ℕ) (a : Atom) :
    scan (List.replicate m '(' ++ [a.name] ++ List.replicate n ')') =
      [⟨List.replicate m '(' ++ [a.name] ++ List.replicate n ')', m, n, .atom a⟩] := by
  have hleft := isBlank_replicate (c := '(') (by decide) m
  have hright := isBlank_replicate (c := ')') (by decide) n
  have hblank : ∀ c ∈ List.replicate m '(' ++ [a.name] ++ List.replicate n ')',
      isBlank c = false := by
    simp only [List.forall_mem_append, List.forall_mem_singleton]
    exact ⟨⟨hleft, isBlank_name a⟩, hright⟩
  rw [scan_word (by simp) hblank, ofWord_atom]

end Token

/-- The tokens of a literal with `m` parentheses before it and `n` behind it. -/
def Literal.tokens (m n : ℕ) (l : Literal) : List Token :=
  if l.negated then
    [⟨List.replicate m '(' ++ Unary.not.word, m, 0, .unary .not⟩,
      ⟨l.atom.name :: List.replicate n ')', 0, n, .atom l.atom⟩]
  else [⟨List.replicate m '(' ++ [l.atom.name] ++ List.replicate n ')', m, n, .atom l.atom⟩]

theorem Literal.scan_spell (m n : ℕ) (l : Literal) :
    Token.scan (List.replicate m '(' ++ l.spell ++ List.replicate n ')') = l.tokens m n := by
  unfold tokens spell
  split
  · have hnot : "not ".toList = Unary.not.word ++ [' '] := by decide
    have hcut : List.replicate m '(' ++ ("not ".toList ++ [l.atom.name]) ++ List.replicate n ')' =
        (List.replicate m '(' ++ Unary.not.word) ++ ' ' ::
          (List.replicate 0 '(' ++ [l.atom.name] ++ List.replicate n ')') := by
      simp only [hnot, List.replicate_zero, List.append_assoc, List.nil_append, List.cons_append]
    rw [hcut, Token.scan_append_blank (by decide), Token.scan_not, Token.scan_atom]
    rfl
  · exact Token.scan_atom m n l.atom

/-! ### Clauses and conjunctions -/

/-- The tokens of a clause: `m` parentheses before its first literal and `n` behind its last, and
an `or` between any two. -/
def spanTokens (m n : ℕ) : List Literal → List Token
  | [] => []
  | [l] => l.tokens m n
  | l :: next :: ls => l.tokens m 0 ++ Token.junctor .or :: spanTokens 0 n (next :: ls)

theorem spanTokens_cons (m n : ℕ) (l : Literal) {ls : List Literal} (hne : ls ≠ []) :
    spanTokens m n (l :: ls) = l.tokens m 0 ++ Token.junctor .or :: spanTokens 0 n ls := by
  obtain ⟨next, ls, rfl⟩ := List.exists_cons_of_ne_nil hne
  rfl

/-- Two texts with a connective between them, and a blank on either side of it. -/
theorem Token.scan_join (before : List Char) (op : Binary) (after : List Char) :
    scan (before ++ (' ' :: (op.word ++ [' ']) ++ after)) =
      scan before ++ junctor op :: scan after := by
  have hcut : before ++ (' ' :: (op.word ++ [' ']) ++ after) =
      before ++ ' ' :: (op.word ++ ' ' :: after) := by
    simp only [List.cons_append, List.append_assoc, List.nil_append]
  rw [hcut, scan_append_blank (by decide), scan_append_blank (by decide), scan_junctor]
  rfl

theorem scan_intercalate_or (m n : ℕ) {ls : List Literal} (hne : ls ≠ []) :
    Token.scan (List.replicate m '(' ++ " or ".toList.intercalate (ls.map Literal.spell) ++
      List.replicate n ')') = spanTokens m n ls := by
  induction ls, hne using List.recNeNil generalizing m with
  | singleton l =>
    rw [List.map_singleton, List.intercalate_singleton, l.scan_spell]
    rfl
  | cons l ls hls ih =>
    have hor : " or ".toList = ' ' :: (Binary.or.word ++ [' ']) := by decide
    have hcut : List.replicate m '(' ++
        " or ".toList.intercalate ((l :: ls).map Literal.spell) ++ List.replicate n ')' =
        (List.replicate m '(' ++ l.spell ++ List.replicate 0 ')') ++
          (' ' :: (Binary.or.word ++ [' ']) ++ (List.replicate 0 '(' ++
            " or ".toList.intercalate (ls.map Literal.spell) ++ List.replicate n ')')) := by
      have hspelled : ls.map Literal.spell ≠ [] := List.map_eq_nil_iff.not.mpr hls
      rw [List.map_cons, List.intercalate_cons_of_ne_nil hspelled]
      simp only [hor, List.replicate_zero, List.append_assoc, List.nil_append, List.append_nil]
    rw [hcut, Token.scan_join, l.scan_spell m 0, ih 0, spanTokens_cons m n l hls]

/-- A conjunct to be spelled: a literal as it stands, or the literals of a clause. -/
inductive Conjunct where
  | literal (l : Literal)
  | clause (literals : List Literal) (nonempty : literals ≠ [])

namespace Conjunct

/-- The literals of a conjunct. -/
def literals : Conjunct → List Literal
  | literal l => [l]
  | clause ls _ => ls

/-- The spelling of a conjunct. -/
def spell : Conjunct → List Char
  | literal l => l.spell
  | clause ls _ => spellClause ls

/-- The tokens of a conjunct. -/
def tokens : Conjunct → List Token
  | literal l => l.tokens 0 0
  | clause ls _ => spanTokens 1 1 ls

theorem scan_spell (c : Conjunct) : Token.scan c.spell = c.tokens := by
  cases c with
  | literal l =>
    have hscan := l.scan_spell 0 0
    rwa [List.replicate_zero, List.replicate_zero, List.nil_append, List.append_nil] at hscan
  | clause ls hne =>
    exact scan_intercalate_or 1 1 hne

/-- The tokens of a conjunction. -/
def conjoin (cs : List Conjunct) : List Token :=
  [Token.junctor .and].intercalate (cs.map tokens)

theorem conjoin_singleton (c : Conjunct) : conjoin [c] = c.tokens :=
  List.intercalate_singleton

theorem conjoin_cons (c : Conjunct) {cs : List Conjunct} (hne : cs ≠ []) :
    conjoin (c :: cs) = c.tokens ++ Token.junctor .and :: conjoin cs := by
  have htokens : cs.map tokens ≠ [] := List.map_eq_nil_iff.not.mpr hne
  rw [conjoin, List.map_cons, List.intercalate_cons_of_ne_nil htokens, List.append_assoc]
  rfl

theorem scan_spellConjunction {cs : List Conjunct} (hne : cs ≠ []) :
    Token.scan (spellConjunction (cs.map spell)) = conjoin cs := by
  induction cs, hne using List.recNeNil with
  | singleton c =>
    rw [spellConjunction, List.map_singleton, List.intercalate_singleton, conjoin_singleton,
      c.scan_spell]
  | cons c cs hcs ih =>
    have hand : " and ".toList = ' ' :: (Binary.and.word ++ [' ']) := by decide
    have hcut : spellConjunction ((c :: cs).map spell) =
        c.spell ++ (' ' :: (Binary.and.word ++ [' ']) ++ spellConjunction (cs.map spell)) := by
      have hspelled : cs.map spell ≠ [] := List.map_eq_nil_iff.not.mpr hcs
      rw [spellConjunction, List.map_cons, List.intercalate_cons_of_ne_nil hspelled, hand,
        List.append_assoc]
      rfl
    rw [hcut, Token.scan_join, c.scan_spell, ih, conjoin_cons c hcs]

end Conjunct
end Clausal
