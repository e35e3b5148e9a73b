/-!
# Byte strings

Documents and console output are byte strings: every length, column and
offset of the library counts bytes. Names and messages are `String`s and enter
a byte string through their UTF-8 encoding.
-/

namespace Proofline

/-- A sequence of bytes. -/
abbrev Bytes := List UInt8

namespace Bytes

/-- The line feed, which ends a line. -/
def newline : UInt8 := 10

/-- The carriage return, which may stand before a line feed. -/
def carriageReturn : UInt8 := 13

/-- The blank. -/
def blank : UInt8 := 32

/-- The UTF-8 encoding of a text. -/
def ofText (text : String) : Bytes :=
  text.toList.flatMap String.utf8EncodeChar

@[simp]
theorem ofText_empty : ofText "" = [] := rfl

@[simp]
theorem ofText_append (first second : String) :
    ofText (first ++ second) = ofText first ++ ofText second := by
  simp [ofText]

theorem toByteArray_ofText (text : String) :
    (ofText text).toByteArray = text.toByteArray := by
  rw [← String.ofList_toList (s := text), String.toByteArray_ofList]
  simp [ofText, List.utf8Encode]

/-- Texts with the same encoding are equal. -/
theorem ofText_inj {first second : String} :
    ofText first = ofText second ↔ first = second := by
  rw [← List.toByteArray_inj, toByteArray_ofText, toByteArray_ofText, String.toByteArray_inj]

end Bytes

end Proofline
