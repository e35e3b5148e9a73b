import Proofline.Session.Services

/-!
# Publishing

A manager accepts a snapshot unless it precedes the latest one, and then
publishes the diagnostics of every document it shows something for. Waiting
ends when its condition holds or when the step is canceled; since nothing else
happens while a step waits, any other wait is stuck.
-/

namespace Proofline.SessionM

/-- What the publisher was told to do at a publication for `uri`, and what
remains of its triggers. The oldest trigger for the document counts; it either
lets one publication pass or is used up. -/
def takeTrigger (uri : String) : List Trigger → Option Trigger × List Trigger
  | [] => (none, [])
  | trigger :: rest =>
      if trigger.uri = uri then
        if 0 < trigger.after then
          (none, { trigger with after := trigger.after - 1 } :: rest)
        else
          (some trigger, rest)
      else
        let (taken, remaining) := takeTrigger uri rest
        (taken, trigger :: remaining)

/-- The state of the watched manager with respect to `uri`. -/
def watchedState (session : Session) (uri : String) : Option WatchedState :=
  session.watched.map fun number =>
    let manager := session.manager number
    { contains := manager.contains uri
      stage := manager.latest.stage
      version := manager.latest.version }

/-- Publish the diagnostics of one document on behalf of a manager. -/
def announce (number : Nat) (version : Int) (uri : String) (diagnostics : List Diagnostic) :
    SessionM Unit := do
  let session ← get
  let (trigger, remaining) := takeTrigger uri session.triggers
  set { session with triggers := remaining }
  record <| .published number {
    uri
    version
    diagnostics
    watched := watchedState session uri
    failure := trigger.bind Trigger.failure }
  match trigger with
  | none => return ()
  | some { failure := some message, .. } => throw (.failed message)
  | some { failure := none, .. } => cancel

/-- Publish the diagnostics of documents in order. -/
def announceAll (number : Nat) (version : Int) : List (String × List Diagnostic) → SessionM Unit
  | [] => return ()
  | (uri, diagnostics) :: rest => do
      announce number version uri diagnostics
      announceAll number version rest

/-- Make a snapshot the latest one of a manager and publish its diagnostics,
unless it precedes the latest one. Nothing is published for a version that is
not parsed. The flag tells whether the snapshot was accepted. -/
def publish (number : Nat) (snapshot : Snapshot) : SessionM Bool := do
  let manager ← manager number
  if snapshot.Precedes manager.latest then
    log "project" .debug <|
      "dropped stale " ++ snapshot.stage.name ++ " snapshot of " ++ manager.project ++ " v" ++
        toString snapshot.version ++ " (current v" ++ toString manager.latest.version ++ ")"
    return false
  else
    change number (.accepted snapshot)
    if snapshot.stage = .unloaded then
      return true
    else
      announceAll number snapshot.version snapshot.diagnostics.toList
      return true

/-- Wait until a condition holds of a manager. The flag tells whether it holds
or the wait was given up. -/
def waitUntil (number : Nat) (condition : Manager → Bool) : SessionM Bool := do
  if condition (← manager number) then
    return true
  else if ← isCanceled then
    return false
  else
    throw .stuck

/-- Report a failure that no caller will see to the operator. -/
def reportFailure (component message : String) : SessionM Unit :=
  record (.failureReported component message)

end Proofline.SessionM
