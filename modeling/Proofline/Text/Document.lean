import Proofline.Text.LineMap

/-!
# Documents

A document is a name and its text as last sent. Its text is summarised by a
64-bit FNV-1a hash, in which every byte is mixed in by an exclusive or and a
multiplication with an odd constant.
-/

namespace Proofline

/-- A named text. -/
structure Document where
  uri : String
  contents : Bytes
deriving DecidableEq, Repr

/-- One round of the hash: mix `byte` into `hash`. -/
def hashByte (hash : UInt64) (byte : UInt8) : UInt64 :=
  (hash ^^^ byte.toUInt64) * 1099511628211

/-- The 64-bit FNV-1a hash of a byte string. -/
def contentHash (contents : Bytes) : UInt64 :=
  contents.foldl hashByte 14695981039346656037

/-- The hash of a text depends on its first part only through the hash of that
part. -/
theorem contentHash_append (first second : Bytes) :
    contentHash (first ++ second) = second.foldl hashByte (contentHash first) := by
  simp [contentHash]

namespace Document

/-- The hash of the document's text. -/
def hash (document : Document) : UInt64 :=
  contentHash document.contents

/-- The number of lines of the document's text. -/
def lineCount (document : Document) : Nat :=
  (LineMap.ofText document.contents).lineCount

end Document

end Proofline
