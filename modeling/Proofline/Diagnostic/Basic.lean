import Proofline.Text.Location

/-!
# Diagnostics

A diagnostic is a message about a location, with the subsystem that found it,
a severity, an optional stable id and further related locations. Two
diagnostics are the same when all of this agrees, including the whole chain of
each location; that is equality of the values.
-/

namespace Proofline

/-- How serious a diagnostic is, in ascending order. -/
inductive Severity where
  | info
  | warning
  | error
deriving DecidableEq, Repr, Inhabited

namespace Severity

/-- All severities, in ascending order. -/
def all : List Severity := [info, warning, error]

/-- The name under which a severity is written. -/
def name : Severity → String
  | info => "info"
  | warning => "warning"
  | error => "error"

/-- The severity with the given name. -/
def ofName? (text : String) : Option Severity :=
  all.find? fun severity => severity.name = text

@[simp]
theorem ofName?_name (severity : Severity) : ofName? severity.name = some severity := by
  cases severity <;> decide

end Severity

/-- The part of the tool chain that found a diagnostic, in the order in which
the parts run. -/
inductive Subsystem where
  | parser
  | cloner
  | refinement
  | rewriter
  | resolver
  | translator
  | verifier
  | compiler
  | documentation
  | testGeneration
deriving DecidableEq, Repr, Inhabited

namespace Subsystem

/-- All subsystems, in the order in which they run. -/
def all : List Subsystem :=
  [parser, cloner, refinement, rewriter, resolver, translator, verifier, compiler, documentation,
    testGeneration]

/-- The name under which a subsystem is written. -/
def name : Subsystem → String
  | parser => "parser"
  | cloner => "cloner"
  | refinement => "refinement"
  | rewriter => "rewriter"
  | resolver => "resolver"
  | translator => "translator"
  | verifier => "verifier"
  | compiler => "compiler"
  | documentation => "documentation"
  | testGeneration => "test-generation"

/-- The subsystem with the given name. -/
def ofName? (text : String) : Option Subsystem :=
  all.find? fun subsystem => subsystem.name = text

@[simp]
theorem ofName?_name (subsystem : Subsystem) : ofName? subsystem.name = some subsystem := by
  cases subsystem <;> decide

/-- Whether a subsystem runs after resolution. -/
def isLate : Subsystem → Bool
  | parser | cloner | refinement | rewriter | resolver => false
  | translator | verifier | compiler | documentation | testGeneration => true

end Subsystem

/-- A further location that belongs to a diagnostic. -/
structure Related where
  location : Location
  message : String
deriving DecidableEq, Repr

/-- A message about a location. -/
structure Diagnostic where
  subsystem : Subsystem := .parser
  severity : Severity := .error
  id : Option String := none
  location : Location := {}
  message : String := ""
  related : List Related := []
deriving DecidableEq, Repr, Inhabited

namespace Diagnostic

/-- The id of a diagnostic without a stable identifier. -/
def noId : String := "none"

/-- Whether the diagnostic is an error. -/
def isError (diagnostic : Diagnostic) : Bool :=
  diagnostic.severity = .error

/-- Whether the diagnostic is an error found before the late subsystems. -/
def isEarlyError (diagnostic : Diagnostic) : Bool :=
  diagnostic.isError && !diagnostic.subsystem.isLate

/-- The document a diagnostic is filed under, which is `fallback` when its
location names none. -/
def filedUnder (diagnostic : Diagnostic) (fallback : String) : String :=
  if diagnostic.location.uri = "" then fallback else diagnostic.location.uri

end Diagnostic

end Proofline
