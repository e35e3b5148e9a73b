import Proofline.Session.Loading
import Proofline.Session.Publishing

/-!
# Updates

An update takes a manager to a new version: it publishes the version as
unloaded, parsed and resolved in turn, and stops as soon as a newer version
has come first. An update that stops for another reason settles its version,
so that nobody waits for it. Progress trees of documents whose text did not
change are carried over from the snapshot that was the latest at the start.
-/

namespace Proofline.SessionM

/-- The trees of `previous` that still describe the documents of a version.
For each tree that does not, a line is logged under `tag`. -/
def migrateTrees (tag : String) (previous : ProgressTrees) (compilation : Compilation) :
    SessionM ProgressTrees := do
  (ProgressTrees.dropped previous compilation).forM (log tag .debug)
  return previous.migrate compilation

/-- Settle a version that was not resolved, and return how its update
ended. -/
def giveUp (number : Nat) (version : Int) (status : UpdateStatus) : SessionM UpdateStatus := do
  change number (.gaveUp version status)
  return status

/-- The status of an update whose last snapshot was or was not accepted. -/
def statusOf (accepted : Bool) : UpdateStatus :=
  if accepted then .resolved else .superseded

/-- Resolve a parsed version and publish the outcome. -/
def loadResolved (services : Services) (number : Nat) (parsed : Parsed)
    (migrated : ProgressTrees) : SessionM UpdateStatus := do
  match ← resolve services parsed migrated with
  | .error .parseErrors => giveUp number parsed.compilation.version .parseErrors
  | .error .requested => giveUp number parsed.compilation.version .canceled
  | .ok resolved => return statusOf (← publish number (.resolved resolved))

/-- Parse and resolve a version, publishing each stage. -/
def loadStages (services : Services) (number : Nat) (compilation : Compilation)
    (migrated : ProgressTrees) : SessionM UpdateStatus := do
  match ← parse services compilation migrated with
  | .error _ => giveUp number compilation.version .canceled
  | .ok parsed =>
      if ← publish number (.parsed parsed) then
        loadResolved services number parsed migrated
      else
        return .superseded

/-- Parse and resolve a version. A failure of a service is reported and ends the
update. -/
def loadOrGiveUp (services : Services) (number : Nat) (compilation : Compilation)
    (migrated : ProgressTrees) : SessionM UpdateStatus := do
  match ← attempt (loadStages services number compilation migrated) with
  | .ok status => return status
  | .error message =>
      reportFailure "pipeline" message
      giveUp number compilation.version .failed

/-- Load a version with the trees of the snapshot before it. -/
def load (services : Services) (number : Nat) (compilation : Compilation)
    (previous : ProgressTrees) : SessionM UpdateStatus := do
  let migrated ← migrateTrees "project" previous compilation
  if ← publish number (.unloaded { compilation }) then
    loadOrGiveUp services number compilation migrated
  else
    return .superseded

/-- Take a manager to a new version. A version older than the latest one
changes nothing. -/
def update (services : Services) (number : Nat) (compilation : Compilation) :
    SessionM UpdateStatus := do
  let latest := (← manager number).latest
  if compilation.version < latest.version then
    return .superseded
  else
    change number (.updateBegun compilation.version)
    let status ← load services number compilation latest.trees
    change number (.updateEnded compilation.version status)
    return status

end Proofline.SessionM
