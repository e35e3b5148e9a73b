import Proofline.Text.Position

/-!
# Locations

A location is a chain of frames, outermost first. Each frame names a place and
may say how it relates to the next one: "error here, caused by that". A line
of zero means that the place within the document is unknown.
-/

namespace Proofline

/-- One place of a location, with the relation to the place that follows it. -/
structure Frame where
  uri : String := ""
  line : Nat := 0
  col : Nat := 0
  relation : Option String := none
deriving DecidableEq, Repr, Inhabited

namespace Frame

/-- Whether two frames name the same place; relations are ignored. -/
def samePlace (first second : Frame) : Bool :=
  first.uri = second.uri ∧ first.line = second.line ∧ first.col = second.col

/-- The document and position of a frame, or the document alone when the
position is unknown. -/
def text (frame : Frame) : String :=
  if frame.line = 0 then
    frame.uri
  else
    frame.uri ++ ":" ++ Nat.repr frame.line ++ ":" ++ Nat.repr frame.col

end Frame

/-- A nonempty chain of frames. -/
structure Location where
  outer : Frame := {}
  inner : List Frame := []
deriving DecidableEq, Repr, Inhabited

namespace Location

/-- The document the location points to. -/
def uri (location : Location) : String :=
  location.outer.uri

/-- Whether the location is chained to a further place. -/
def isNested (location : Location) : Bool :=
  !location.inner.isEmpty

/-- Whether two locations point to the same place; nesting is ignored. -/
def samePlace (first second : Location) : Bool :=
  first.outer.samePlace second.outer

/-- The text of the outermost place. -/
def text (location : Location) : String :=
  location.outer.text

/-- All frames, outermost first. -/
def frames (location : Location) : List Frame :=
  location.outer :: location.inner

end Location

end Proofline
