import Proofline.Text.Decimal
import Proofline.Text.Position

/-!
# State names

A captured program state is named after its program point: the document, the
position in parentheses, and possibly a description. Reading a name looks for
the leftmost parenthesised pair of numbers; numbers are taken modulo 2 ^ 64,
and a line of zero counts as no position.
-/

namespace Proofline.StateName

/-- The name of the state every trace starts in. -/
def initial : String := "<initial>"

/-- The name of the state at a program point. -/
def encode (uri : String) (position : Position) (description : String) : String :=
  uri ++ "(" ++ Nat.repr position.line ++ "," ++ Nat.repr position.col ++ ")" ++
    if description = "" then "" else ": " ++ description

/-- The number of values a line or column of a state name can have, 2 ^ 64. -/
def modulus : Nat := 18446744073709551616

/-- A run of digits at the start of `text`, read up to multiples of `modulus`,
and the text behind it. -/
def readNumber? (text : List Char) : Option (Nat × List Char) :=
  let digits := text.takeWhile Char.isDigit
  if digits = [] then
    none
  else
    some (Decimal.value digits % modulus, text.dropWhile Char.isDigit)

/-- The text behind `c` if it starts with `c`. -/
def readChar? (c : Char) : List Char → Option (List Char)
  | [] => none
  | first :: rest => if first = c then some rest else none

/-- The pair of numbers at the start of `text`, closed by a parenthesis. -/
def readPair? (text : List Char) : Option Position := do
  let (line, behindLine) ← readNumber? text
  let behindComma ← readChar? ',' behindLine
  let (col, behindCol) ← readNumber? behindComma
  let _ ← readChar? ')' behindCol
  return { line, col }

/-- The leftmost parenthesised pair of numbers. -/
def findPair? : List Char → Option Position
  | [] => none
  | c :: rest =>
      match (if c = '(' then readPair? rest else none) with
      | some position => some position
      | none => findPair? rest

/-- The position a state name carries. -/
def decode? (name : String) : Option Position :=
  (findPair? name.toList).filter fun position => position.line ≠ 0

theorem decode?_initial : decode? initial = none := by
  decide

end Proofline.StateName
