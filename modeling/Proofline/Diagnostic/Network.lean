import Proofline.Diagnostic.Journal
import Proofline.Diagnostic.Rendering

/-!
# Reporters and their networks

A reporter decides what becomes of a diagnostic: it is counted, printed,
discarded, filed per document, or counted and handed on under a label. A
network is a numbered list of reporters in which a labelling reporter hands on
to one with a smaller number, so every diagnostic comes to rest. Severities
are raised once, where a report enters the network.
-/

namespace Proofline

/-- A recipient of diagnostics. -/
inductive Reporter where
  /-- Counts what it accepts. -/
  | counting (tally : Tally)
  /-- Counts and prints, with the documents known for snippets and all that
  was written so far. -/
  | console (tally : Tally) (sources : Table String Document) (written : Bytes)
  /-- Discards everything. -/
  | silent (options : Options)
  /-- Files per document. -/
  | project (journal : Journal)
  /-- Counts and hands on to the reporter numbered `wrapped`, with `label` in
  front of the message. -/
  | labelling (tally : Tally) (wrapped : Nat) (label : String)
deriving Inhabited

namespace Reporter

/-- The options a report to this reporter is subject to. -/
def options : Reporter → Options
  | counting tally => tally.options
  | console tally _ _ => tally.options
  | silent options => options
  | project journal => journal.tally.options
  | labelling tally _ _ => tally.options

/-- The diagnostics this reporter counts. -/
def tally : Reporter → Tally
  | counting tally => tally
  | console tally _ _ => tally
  | silent options => { options }
  | project journal => journal.tally
  | labelling tally _ _ => tally

/-- What this reporter has written. -/
def written : Reporter → Bytes
  | console _ _ written => written
  | counting _ | silent _ | project _ | labelling .. => []

end Reporter

/-- The console text of one diagnostic, with its snippet and colour as the
options ask for. -/
def consoleText (options : Options) (texts : HelpTexts) (sources : Table String Document)
    (diagnostic : Diagnostic) : Bytes :=
  let snippet :=
    match (if options.showSnippets then sources[diagnostic.location.uri]? else none) with
    | none => []
    | some document =>
        renderSnippet document diagnostic.location.outer.line diagnostic.location.outer.col
  let text := snippet ++ diagnostic.render options texts
  if options.useColor then
    Bytes.ofText diagnostic.severity.color ++ text ++ Bytes.ofText resetColor
  else
    text

/-- Whether the console prints a diagnostic. -/
def printsOnConsole (options : Options) (diagnostic : Diagnostic) : Bool :=
  options.printTooltips || diagnostic.severity ≠ .info

namespace Reporter

/-- Take a diagnostic without handing it on. The flag tells whether it was
recorded, and for a console whether it was printed as well. -/
def accept (reporter : Reporter) (texts : HelpTexts) (diagnostic : Diagnostic) :
    Reporter × Bool :=
  match reporter with
  | counting tally =>
      let (tally, kept) := tally.accept diagnostic
      (counting tally, kept)
  | console tally sources written =>
      let (tally, kept) := tally.accept diagnostic
      if kept && printsOnConsole tally.options diagnostic then
        (console tally sources
          (written ++ consoleText tally.options texts sources diagnostic), true)
      else
        (console tally sources written, false)
  | silent options => (silent options, false)
  | project journal =>
      let (journal, kept) := journal.accept diagnostic
      (project journal, kept)
  | labelling tally wrapped label =>
      let (tally, kept) := tally.accept diagnostic
      (labelling tally wrapped label, kept)

end Reporter

/-- Numbered reporters and the help texts their consoles use. -/
structure Network where
  reporters : List Reporter := []
  texts : HelpTexts := HelpTexts.seeded

namespace Network

/-- `diagnostic` with `label` in front of its message. -/
def labelled (label : String) (diagnostic : Diagnostic) : Diagnostic :=
  { diagnostic with message := label ++ diagnostic.message }

/-- Hand a diagnostic to the reporter with the given number. A labelling
reporter counts it and passes it on to a smaller number, whose answer it
returns. -/
def accept (texts : HelpTexts) (reporters : List Reporter) (index : Nat)
    (diagnostic : Diagnostic) : List Reporter × Bool :=
  match reporters[index]? with
  | none => (reporters, false)
  | some reporter =>
      let (changed, kept) := reporter.accept texts diagnostic
      match reporter with
      | .labelling _ wrapped label =>
          if wrapped < index then
            accept texts (reporters.set index changed) wrapped (labelled label diagnostic)
          else
            (reporters, false)
      | .counting _ | .console .. | .silent _ | .project _ => (reporters.set index changed, kept)
termination_by index

@[simp]
theorem length_accept (texts : HelpTexts) (reporters : List Reporter) (index : Nat)
    (diagnostic : Diagnostic) :
    (accept texts reporters index diagnostic).1.length = reporters.length := by
  fun_induction accept texts reporters index diagnostic <;> simp_all

/-- Hand a report to the reporter with the given number. Its options decide
under which severity a diagnostic is recorded, if at all. -/
def report (network : Network) (index : Nat) (report : Report) : Network × Bool :=
  match network.reporters[index]? with
  | none => (network, false)
  | some reporter =>
      match report.diagnostic? reporter.options with
      | none => (network, false)
      | some diagnostic =>
          let (reporters, kept) := accept network.texts network.reporters index diagnostic
          ({ network with reporters }, kept)

end Network

/-- What can be asked of one reporter. -/
inductive ReporterRequest where
  | report (report : Report)
  | setErrorsOnly (errorsOnly : Bool)
  | addSource (document : Document)
  | listDiagnostics
  | listByUri
  | summary
deriving Repr

/-- The answer of a reporter. -/
inductive ReporterReply where
  | nothing
  | flag (flag : Bool)
  | diagnostics (diagnostics : List Diagnostic)
  | byUri (project : String) (byUri : DiagnosticsByUri)
  | summary (tally : Tally)

namespace Network

/-- The network with another reporter under the given number. -/
def replace (network : Network) (index : Nat) (reporter : Reporter) : Network :=
  { network with reporters := network.reporters.set index reporter }

/-- Answer a request to the reporter with the given number, or nothing when
that reporter does not exist or does not serve the request. -/
def request? (network : Network) (index : Nat) (request : ReporterRequest) :
    Option (Network × ReporterReply) :=
  match network.reporters[index]?, request with
  | none, _ => none
  | some _, .report report =>
      let (changed, kept) := network.report index report
      some (changed, if report.isAnswered then .flag kept else .nothing)
  | some (.counting tally), .setErrorsOnly errorsOnly =>
      some (network.replace index (.counting { tally with errorsOnly }), .flag errorsOnly)
  | some (.project journal), .setErrorsOnly errorsOnly =>
      let tally := { journal.tally with errorsOnly }
      some (network.replace index (.project { journal with tally }), .flag errorsOnly)
  | some (.console tally sources written), .addSource document =>
      let sources := sources.insert document.uri document
      some (network.replace index (.console tally sources written), .nothing)
  | some (.counting tally), .listDiagnostics => some (network, .diagnostics tally.recorded)
  | some (.project journal), .listDiagnostics =>
      some (network, .diagnostics journal.tally.recorded)
  | some (.project journal), .listByUri => some (network, .byUri journal.project journal.byUri)
  | some reporter, .summary => some (network, .summary { reporter.tally with
      options := reporter.options })
  | some _, _ => none

/-- Add a reporter under the next number. A labelling reporter takes over the
options of the reporter it wraps and needs that one to exist already. -/
def push? (network : Network) (reporter : Reporter) : Option Network :=
  match reporter with
  | .labelling tally wrapped label =>
      network.reporters[wrapped]?.map fun inner =>
        let tally := { tally with options := inner.options }
        { network with reporters := network.reporters ++ [.labelling tally wrapped label] }
  | .counting _ | .console .. | .silent _ | .project _ =>
      some { network with reporters := network.reporters ++ [reporter] }

end Network

end Proofline
