/-! # Command-line arguments

Arguments are flags (`--name`), options with a value (`--name value` or `--name=value`) and
operands, in any order.  After `--` every argument is an operand.  A value that is an argument
of its own must not begin with a hyphen, unless it is the hyphen alone.  Each flag and option is
given at most once. -/

namespace Clausal.Command

/-- What an argument looks like on its own. -/
inductive Shape where
  /-- The argument `--`. -/
  | separator
  /-- A long name after two hyphens, and what follows an equals sign. -/
  | long (name : List Char) (value : Option (List Char))
  /-- Another argument that begins with a hyphen. -/
  | short
  | plain
deriving DecidableEq

/-- The shape of an argument. -/
def Shape.of : List Char → Shape
  | ['-', '-'] => separator
  | '-' :: '-' :: text =>
    long (text.takeWhile (· ≠ '=')) (match text.dropWhile (· ≠ '=') with
      | [] => none
      | _ :: value => some value)
  | ['-'] => plain
  | '-' :: _ => short
  | _ => plain

/-- The flags and options that a command knows. -/
structure Form where
  flags : List (List Char)
  options : List (List Char)

/-- Arguments that have been told apart. -/
structure Arguments where
  flags : List (List Char)
  options : List (List Char × List Char)
  operands : List (List Char)
deriving DecidableEq

namespace Arguments

/-- No arguments. -/
def none : Arguments := ⟨[], [], []⟩

/-- Whether a flag is given. -/
def has (a : Arguments) (flag : String) : Bool := flag.toList ∈ a.flags

/-- The value of an option. -/
def value? (a : Arguments) (option : String) : Option (List Char) :=
  a.options.lookup option.toList

/-- Adds a flag, unless it is given already. -/
def addFlag (a : Arguments) (name : List Char) : Option Arguments :=
  if name ∈ a.flags then Option.none else some { a with flags := a.flags ++ [name] }

/-- Adds an option, unless it is given already. -/
def addOption (a : Arguments) (name value : List Char) : Option Arguments :=
  if (a.options.lookup name).isSome then Option.none
  else some { a with options := a.options ++ [(name, value)] }

/-- Reads arguments in addition to those already read. -/
def read (form : Form) : Arguments → List (List Char) → Option Arguments
  | a, [] => some a
  | a, text :: rest =>
    match Shape.of text with
    | .separator => some { a with operands := a.operands ++ rest }
    | .short => Option.none
    | .plain => read form { a with operands := a.operands ++ [text] } rest
    | .long name (some value) =>
      if name ∈ form.options then (a.addOption name value).bind (read form · rest)
      else Option.none
    | .long name Option.none =>
      if name ∈ form.flags then (a.addFlag name).bind (read form · rest)
      else if name ∈ form.options then
        match rest with
        | [] => Option.none
        | value :: rest =>
          if Shape.of value = .plain then (a.addOption name value).bind (read form · rest)
          else Option.none
      else Option.none
termination_by _ texts => texts.length

end Arguments

/-- A number in decimal digits, after a plus sign or not, that fits into 64 bits. -/
def readNumber (text : List Char) : Option Nat :=
  let digits := match text with
    | '+' :: rest => rest
    | _ => text
  if digits ≠ [] ∧ digits.all Char.isDigit then
    let value := digits.foldl (fun n c => 10 * n + (c.toNat - '0'.toNat)) 0
    if value < 0x10000000000000000 then some value else none
  else none

end Clausal.Command
