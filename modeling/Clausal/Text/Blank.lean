/-! # Blanks, words and trimming

Text is read as a list of characters.  A *blank* is a character of the Unicode property
`White_Space`; a *word* is a maximal run of characters that are not blank.  Everything that
reads a formula reads its words, so how blanks are spread between words never matters. -/

namespace Clausal.Text

/-- The characters of the Unicode property `White_Space`. -/
def isBlank (c : Char) : Bool :=
  let n := c.toNat
  (9 ≤ n && n ≤ 13) || n == 0x20 || n == 0x85 || n == 0xA0 || n == 0x1680 ||
    (0x2000 ≤ n && n ≤ 0x200A) || n == 0x2028 || n == 0x2029 || n == 0x202F ||
    n == 0x205F || n == 0x3000

/-- The maximal nonempty runs of characters between separators, in order. -/
def runs (separates : Char → Bool) (text : List Char) : List (List Char) :=
  (text.splitOnP separates).filter (fun run => !run.isEmpty)

/-- The words of a text. -/
def words (text : List Char) : List (List Char) := runs isBlank text

/-- A list without its longest last stretch of elements that satisfy `p`. -/
def dropTrailing {α : Type} (p : α → Bool) (l : List α) : List α :=
  (l.reverse.dropWhile p).reverse

/-- A text without the blanks at either end. -/
def trim (text : List Char) : List Char := dropTrailing isBlank (text.dropWhile isBlank)

/-- A text without any of its blanks. -/
def withoutBlanks (text : List Char) : List Char := text.filter (fun c => !isBlank c)

/-! ### Laws of splitting -/

theorem runs_nil (separates : Char → Bool) : runs separates [] = [] := by
  simp [runs]

/-- A separator in front of a text adds no run. -/
theorem runs_cons_of_separates {separates : Char → Bool} {c : Char} (h : separates c = true)
    (text : List Char) : runs separates (c :: text) = runs separates text := by
  simp [runs, List.splitOnP_cons_eq_if_modifyHead, h]

/-- The runs around a separator are those before it, then those after it. -/
theorem runs_append_cons {separates : Char → Bool} {c : Char} (h : separates c = true)
    (before after : List Char) :
    runs separates (before ++ c :: after) = runs separates before ++ runs separates after := by
  simp [runs, List.splitOnP_append_cons before after h]

end Clausal.Text
