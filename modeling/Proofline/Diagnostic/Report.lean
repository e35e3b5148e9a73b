import Proofline.Diagnostic.Basic
import Proofline.Options

/-!
# Reports

A report is a request to record something. Most reports go through the entry
point that turns a warning into an error when the options ask for it; a
diagnostic that has already passed it is forwarded as it is.
-/

namespace Proofline

/-- The ways to report something. -/
inductive Report where
  /-- All fields are given; the severity may still be raised. -/
  | full (diagnostic : Diagnostic)
  /-- The diagnostic is final. -/
  | final (diagnostic : Diagnostic)
  /-- An error, without related locations. Without an id it is recorded under
  the id that stands for none. -/
  | error (subsystem : Subsystem) (id : Option String) (location : Location) (message : String)
  /-- A warning, without related locations. -/
  | warning (subsystem : Subsystem) (id : String) (location : Location) (message : String)
  /-- A warning about deprecated usage, which the options may silence. -/
  | deprecated (subsystem : Subsystem) (id : String) (location : Location) (message : String)
  /-- A remark without an id. -/
  | info (subsystem : Subsystem) (location : Location) (message : String)
deriving DecidableEq, Repr

namespace Severity

/-- The severity under which something is recorded. -/
def escalate (severity : Severity) (options : Options) : Severity :=
  if options.warningsAsErrors ∧ severity = .warning then .error else severity

/-- Raising a severity twice is raising it once. -/
@[simp]
theorem escalate_escalate (severity : Severity) (options : Options) :
    (severity.escalate options).escalate options = severity.escalate options := by
  unfold escalate
  split <;> simp_all

/-- No warning is left where warnings are errors. -/
theorem escalate_ne_warning (severity : Severity) {options : Options}
    (raising : options.warningsAsErrors = true) : severity.escalate options ≠ .warning := by
  cases severity <;> simp [escalate, raising]

end Severity

namespace Diagnostic

/-- The diagnostic with the severity under which it is recorded. -/
def escalate (diagnostic : Diagnostic) (options : Options) : Diagnostic :=
  { diagnostic with severity := diagnostic.severity.escalate options }

end Diagnostic

namespace Report

/-- The diagnostic to be recorded for a report, if any. -/
def diagnostic? (report : Report) (options : Options) : Option Diagnostic :=
  match report with
  | full diagnostic => some (diagnostic.escalate options)
  | final diagnostic => some diagnostic
  | error subsystem id location message =>
      some (escalated subsystem .error (some (id.getD Diagnostic.noId)) location message)
  | warning subsystem id location message =>
      some (escalated subsystem .warning (some id) location message)
  | deprecated subsystem id location message =>
      if options.deprecationNoise = 0 then
        none
      else
        some (escalated subsystem .warning (some id) location message)
  | info subsystem location message =>
      some (escalated subsystem .info none location message)
where
  /-- The diagnostic with these fields, under the severity it is recorded
  with. -/
  escalated (subsystem : Subsystem) (severity : Severity) (id : Option String)
      (location : Location) (message : String) : Diagnostic :=
    ({ subsystem, severity, id, location, message } : Diagnostic).escalate options

/-- Whether the reporting party learns if the diagnostic was recorded. -/
def isAnswered : Report → Bool
  | full _ | final _ => true
  | error .. | warning .. | deprecated .. | info .. => false

end Report

end Proofline
