import Proofline.Session.Services

/-!
# Loading

Loading takes a version from its documents to a parsed and then to a resolved
snapshot. Both stages look at the cancellation of the step before they begin
and again before they finish; a version whose parse reported an error is not
resolved. Units are collected only while no error from before the late
subsystems was reported.
-/

namespace Proofline.SessionM

/-- The tag of log lines about loading. -/
def loaderTag : String := "loader"

/-- A project and its version, for log lines. -/
def versionText (compilation : Compilation) : String :=
  compilation.project ++ " v" ++ toString compilation.version

/-- Parse a version. Root documents keep the trees in `migrated` and get fresh
ones otherwise. -/
def parse (services : Services) (compilation : Compilation) (migrated : ProgressTrees) :
    SessionM (Except CancelReason Parsed) := do
  if ← isCanceled then
    return .error .requested
  else
    let number ← openJournal compilation.project
    record (.parsing compilation.version)
    let module ← services.parse compilation number
    if ← isCanceled then
      return .error .requested
    else
      let journal ← journal number
      log loaderTag .debug <|
        "parsed " ++ versionText compilation ++ " with " ++
          Nat.repr (journal.tally.count .error) ++ " error(s)"
      return .ok {
        compilation
        program := { module, journal := number }
        diagnostics := journal.byUri
        trees := Parsed.initialTrees compilation migrated }

/-- The symbols of a program, none when its journal has errors. -/
def collectSymbols (services : Services) (program : Program) (compilation : Compilation) :
    SessionM SymbolTable := do
  if (← journal program.journal).tally.hasErrors then
    return {}
  else
    record (.collectingSymbols compilation.version)
    services.symbols program compilation

/-- The units of a program, none when its journal has errors from before the
late subsystems. Nothing is returned when the step is canceled. -/
def collectUnits (program : Program) (compilation : Compilation) :
    SessionM (Option (List Declaration)) := do
  if (← journal program.journal).tally.hasEarlyErrors then
    return some []
  else
    return Declaration.collectUnits? program.module compilation (← isCanceled)

/-- Build the resolved snapshot of a version from what the services
returned. -/
def finishResolution (parsed : Parsed) (migrated : ProgressTrees) (signatures : SignatureTable)
    (symbols : SymbolTable) (ghostDiagnostics : List Diagnostic) :
    SessionM (Except CancelReason Resolved) := do
  match ← collectUnits parsed.program parsed.compilation with
  | none => return .error .requested
  | some units =>
      if ← isCanceled then
        return .error .requested
      else
        let journal ← journal parsed.program.journal
        log loaderTag .debug <|
          "resolved " ++ versionText parsed.compilation ++ ": " ++ Nat.repr units.length ++
            " verifiable unit(s)"
        return .ok {
          parsed
          diagnostics := journal.byUri
          symbols
          signatures
          ghostDiagnostics
          units
          trees := Resolved.pendingTrees parsed migrated units }

/-- Resolve a parsed version. Its trees get pending nodes for the units, except
those carried over in `migrated`. -/
def resolve (services : Services) (parsed : Parsed) (migrated : ProgressTrees) :
    SessionM (Except CancelReason Resolved) := do
  if ← isCanceled then
    return .error .requested
  else if (← journal parsed.program.journal).tally.hasErrors then
    log loaderTag .debug <|
      "resolution skipped: " ++ parsed.compilation.project ++ " has parse errors"
    return .error .parseErrors
  else
    record (.resolving parsed.compilation.project parsed.program.journal)
    let resolved ← services.resolve parsed.compilation.project parsed.program
    record (.collectingSignatures resolved.length)
    let signatures ← services.signatures resolved
    let symbols ← collectSymbols services parsed.program parsed.compilation
    record (.checkingGhosts signatures.symbols.length)
    let ghostDiagnostics ← services.ghosts signatures
    finishResolution parsed migrated signatures symbols ghostDiagnostics

end Proofline.SessionM
