import Proofline.Text.Bytes
import Proofline.Text.Position

/-!
# Lines of a text

A line map keeps the offsets at which the lines of a text start. Lines are
separated by line feeds, so a text always has one line more than it has line
feeds. The text of a line leaves out its line feed and one carriage return
before it.
-/

namespace Proofline

open Bytes (newline carriageReturn)

/-- The offsets after each line feed of `text`, where `text` itself begins at
`offset`. -/
def offsetsAfterNewline (offset : Nat) : Bytes → List Nat
  | [] => []
  | byte :: rest =>
      if byte = newline then
        (offset + 1) :: offsetsAfterNewline (offset + 1) rest
      else
        offsetsAfterNewline (offset + 1) rest

theorem length_offsetsAfterNewline (offset : Nat) (text : Bytes) :
    (offsetsAfterNewline offset text).length = text.count newline := by
  induction text generalizing offset with
  | nil => rfl
  | cons byte rest ih =>
      by_cases feed : byte = newline <;> simp [offsetsAfterNewline, feed, ih]

/-- A text together with the offsets at which its lines start. -/
structure LineMap where
  text : Bytes
  starts : List Nat

namespace LineMap

/-- The line map of `text`. -/
def ofText (text : Bytes) : LineMap where
  text
  starts := 0 :: offsetsAfterNewline 0 text

/-- The number of lines, which is never zero. -/
def lineCount (map : LineMap) : Nat :=
  map.starts.length

/-- `line` without one carriage return at its end. -/
def dropCarriageReturn (line : Bytes) : Bytes :=
  if line.getLast? = some carriageReturn then line.dropLast else line

/-- The offset at which the line with the given number starts, if there is
such a line. -/
def lineStart? (map : LineMap) (line : Nat) : Option Nat :=
  if line = 0 then none else map.starts[line - 1]?

/-- The text of the line with the given number, without its terminator. It is
empty when there is no such line. -/
def lineText (map : LineMap) (line : Nat) : Bytes :=
  match map.lineStart? line with
  | none => []
  | some start =>
      dropCarriageReturn ((map.text.drop start).takeWhile fun byte => byte ≠ newline)

/-- The position of an offset. Offsets beyond the text stand for its end. -/
def positionOf (map : LineMap) (offset : Nat) : Position :=
  let clamped := min offset map.text.length
  let reached := map.starts.takeWhile fun start => start ≤ clamped
  { line := reached.length
    col := 1 + (clamped - reached.getLast?.getD 0) }

/-- The offset of a position. A column beyond the line stands for the end of
the line, line zero for the start of the text, and a line beyond the last one
for the end of the text. -/
def offsetOf (map : LineMap) (position : Position) : Nat :=
  if position.line = 0 then
    0
  else
    match map.lineStart? position.line with
    | none => map.text.length
    | some start => start + min (position.col - 1) (map.lineText position.line).length

theorem lineCount_ofText (text : Bytes) :
    (ofText text).lineCount = text.count newline + 1 := by
  simp [lineCount, ofText, length_offsetsAfterNewline]

theorem mem_of_mem_dropCarriageReturn {line : Bytes} {byte : UInt8}
    (member : byte ∈ dropCarriageReturn line) : byte ∈ line := by
  unfold dropCarriageReturn at member
  split at member
  · exact List.dropLast_subset line member
  · exact member

/-- A line holds no line feed. -/
theorem newline_notMem_lineText (map : LineMap) (line : Nat) :
    newline ∉ map.lineText line := by
  unfold lineText
  split
  · exact List.not_mem_nil
  · intro member
    have kept := List.all_eq_true.mp List.all_takeWhile _ (mem_of_mem_dropCarriageReturn member)
    simp at kept

end LineMap

end Proofline
