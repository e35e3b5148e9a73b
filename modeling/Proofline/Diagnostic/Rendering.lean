import Proofline.Diagnostic.Basic
import Proofline.Diagnostic.HelpText
import Proofline.Options
import Proofline.Text.Document

/-!
# Console rendering

A diagnostic is printed as one header line. Continuation lines of its message
are indented, so that they can be told from headers. A nested location adds
every place that differs from the one before it, with a relation that is
printed as it is. In verbose mode an error id and its help text follow.
-/

namespace Proofline

open Bytes (newline blank ofText)

/-- The words between two places of a location whose relation is not given. -/
def unnamedRelation : String := "[Related location]"

/-- `message` with a blank after each line feed. -/
def indentContinuations (message : Bytes) : Bytes :=
  message.flatMap fun byte => if byte = newline then [newline, blank] else [byte]

/-- The location, the severity and the message, set off by colons. -/
def renderHeader (severity : Severity) (location : Location) (message : Bytes) : Bytes :=
  ofText location.text ++ ofText ": " ++ ofText severity.name ++ ofText ": " ++ message

/-- The places behind `outer` that differ from the place before them, each
with the relation that leads to it. -/
def renderInner (outer : Frame) : List Frame → Bytes
  | [] => []
  | inner :: rest =>
      (if inner.samePlace outer then
        []
      else
        [blank] ++ ofText (outer.relation.getD unnamedRelation) ++ [blank] ++ ofText inner.text) ++
      renderInner inner rest

namespace Diagnostic

/-- The id shown in verbose mode, if there is one to show. -/
def shownId? (diagnostic : Diagnostic) : Option String :=
  diagnostic.id.filter fun id => id ≠ "" ∧ id ≠ noId

/-- What follows the places: the end of the line, and in verbose mode the id
with its help text. -/
def renderEnding (diagnostic : Diagnostic) (options : Options) (texts : HelpTexts) : Bytes :=
  match (if options.verbose then diagnostic.shownId? else none) with
  | none => [newline]
  | some id => ofText (" (ID: " ++ id ++ ")\n") ++ ofText ((texts[id]?).getD "")

/-- The console text of a diagnostic. -/
def render (diagnostic : Diagnostic) (options : Options) (texts : HelpTexts) : Bytes :=
  renderHeader diagnostic.severity diagnostic.location
      (indentContinuations (ofText diagnostic.message)) ++
    renderInner diagnostic.location.outer diagnostic.location.inner ++
    diagnostic.renderEnding options texts

end Diagnostic

/-- The line of `document` with the given number and a caret under the given
column, or nothing when the document has no such line. -/
def renderSnippet (document : Document) (line col : Nat) : Bytes :=
  let map := LineMap.ofText document.contents
  if line = 0 ∨ map.lineCount < line then
    []
  else
    let text := map.lineText line
    ofText "  |\n" ++ (ofText "  | " ++ text ++ [newline]) ++
      (ofText "  | " ++ List.replicate (min (col - 1) text.length) blank ++ ofText "^\n")

namespace Severity

/-- The terminal escape that starts the colour of a severity. -/
def color : Severity → String
  | error => "\x1b[31m"
  | warning => "\x1b[33m"
  | info => "\x1b[32m"

end Severity

/-- The terminal escape that ends a colour. -/
def resetColor : String := "\x1b[0m"

end Proofline
