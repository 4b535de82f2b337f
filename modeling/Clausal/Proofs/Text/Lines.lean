import Mathlib
import Clausal.Proofs.Text.Blank
import Clausal.Text.Quoted

/-! # Lines of a printed text

A line is a text without a line break, and a printed text ends each of its lines with one.  What was
printed line by line is therefore regained from the text (`lines_join`), and its first line is there
whatever else was printed after it (`lines_append`). -/

namespace Clausal.Text

/-- The text has no line break. -/
def IsLine (line : String) : Prop := '\n' ∉ line.toList

instance : DecidablePred IsLine := fun line => inferInstanceAs (Decidable ('\n' ∉ line.toList))

/-- The lines of a printed text, each up to its line break. -/
def lines (printed : String) : List String :=
  (printed.toList.splitOn '\n').dropLast.map String.ofList

variable {line : String}

/-! ### Regaining lines -/

theorem lines_empty : lines "" = [] := rfl

theorem lines_append (h : IsLine line) (rest : String) :
    lines (line ++ "\n" ++ rest) = line :: lines rest := by
  have htext : (line ++ "\n" ++ rest).toList = line.toList ++ '\n' :: rest.toList := by simp
  have hpiece : ∀ c ∈ line.toList, (c == '\n') = false := by
    intro c hc
    rw [beq_eq_false_iff_ne]
    rintro rfl
    exact h hc
  have hsplit : (line.toList ++ '\n' :: rest.toList).splitOn '\n' =
      line.toList :: rest.toList.splitOn '\n' := by
    rw [List.splitOn_eq_splitOnP, List.splitOn_eq_splitOnP]
    exact List.splitOnP_append_cons_of_forall_mem hpiece _ (beq_self_eq_true '\n') _
  have hne : rest.toList.splitOn '\n' ≠ [] := List.splitOn_ne_nil '\n' _
  rw [lines, htext, hsplit, List.dropLast_cons_of_ne_nil hne, List.map_cons, String.ofList_toList]
  rfl

/-- Lines that were printed one after the other are the lines of the text. -/
theorem lines_join {ls : List String} (h : ∀ line ∈ ls, IsLine line) :
    lines (String.join (ls.map (· ++ "\n"))) = ls := by
  induction ls with
  | nil => exact lines_empty
  | cons line ls ih =>
    obtain ⟨hline, hls⟩ := List.forall_mem_cons.mp h
    rw [List.map_cons, String.join_cons, lines_append hline, ih hls]

/-! ### Texts of one line -/

@[simp]
theorem isLine_append {a b : String} : IsLine (a ++ b) ↔ IsLine a ∧ IsLine b := by
  simp [IsLine, not_or]

@[simp]
theorem isLine_ofList {text : List Char} : IsLine (String.ofList text) ↔ '\n' ∉ text := by
  rw [IsLine, String.toList_ofList]

@[simp]
theorem isLine_quoted {text : List Char} : IsLine (quoted text) ↔ '\n' ∉ text := by
  have hmark : IsLine "'" := by decide
  simp [quoted, hmark]

/-- A number is written in digits. -/
theorem isDigit_of_mem_toString {n : ℕ} {c : Char} (h : c ∈ (toString n).toList) :
    c.isDigit = true := by
  have hdigits : (toString n).toList = Nat.toDigits 10 n := by simp
  rw [hdigits] at h
  exact Nat.isDigit_of_mem_toDigits (by decide) (by decide) h

@[simp]
theorem isLine_toString (n : ℕ) : IsLine (toString n) := by
  intro h
  exact absurd (isDigit_of_mem_toString h) (by decide)

/-- Nothing without a blank has a line break. -/
theorem notMem_of_isBlank {text : List Char} (h : ∀ c ∈ text, isBlank c = false) :
    '\n' ∉ text := by
  intro hmem
  exact absurd (h _ hmem) (by decide)

/-- The characters of a word are not blank. -/
theorem isBlank_of_mem_words {text w : List Char} (hw : w ∈ words text) :
    ∀ c ∈ w, isBlank c = false := by
  intro c hc
  have hmem : c ∈ withoutBlanks text := by
    rw [← flatten_words]
    exact List.mem_flatten.mpr ⟨w, hw, hc⟩
  unfold withoutBlanks at hmem
  simpa using (List.mem_filter.mp hmem).2

end Clausal.Text
