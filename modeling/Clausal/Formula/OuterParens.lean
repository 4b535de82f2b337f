import Clausal.Text.Blank

/-! # Outer parentheses

A text that begins with two opening parentheses and ends with a closing one is taken to be
wrapped in a redundant pair.  The pair is removed as long as there is one; whether the two
parentheses match each other is not asked. -/

namespace Clausal

/-- Removes the first and the last character while two opening parentheses come first and a
closing one comes last. -/
def peelParens : List Char → List Char
  | '(' :: '(' :: rest =>
    if rest.getLast? = some ')' then peelParens ('(' :: rest.dropLast) else '(' :: '(' :: rest
  | text => text
termination_by text => text.length

/-- A text without blanks at its ends and without redundant outer parentheses. -/
def stripOuterParens (text : List Char) : List Char := peelParens (Text.trim text)

end Clausal
