import Proofline.Session.Publishing

/-!
# Verification

Verifying a resolved version goes through its units in order and publishes a
snapshot after each. Units that have a result are passed over, so a run that
was canceled can be taken up again. A unit whose verifier fails counts as an
internal error. Only one run verifies a version at a time, and a version that
was verified in full is settled.
-/

namespace Proofline.SessionM

/-- Verify one unit of a version. A failure of the verifier is reported and
counts as an internal error. -/
def verifyUnit (services : Services) (number : Nat) (version : Int) (unit : Declaration) :
    SessionM Outcome := do
  record (.verifying number version unit)
  match ← attempt (services.verify unit) with
  | .ok outcome => return outcome
  | .error message =>
      reportFailure "verifier" (unit.name ++ ": " ++ message)
      return { status := .internalError }

/-- Verify the units that have no result yet, in order. Returns the last
snapshot if no newer version came first. -/
def verifyUnits (services : Services) (number : Nat) (version : Int) :
    List Declaration → Verified → SessionM (Option Verified)
  | [], verified => return some verified
  | unit :: rest, verified => do
      if ← isCanceled then
        return some verified
      else if unit.key ∈ verified.results then
        verifyUnits services number version rest verified
      else
        let outcome ← verifyUnit services number version unit
        if ← isCanceled then
          return some verified
        else
          let next := verified.withResult unit outcome
          if ← publish number (.verified next) then
            verifyUnits services number version rest next
          else
            return none

/-- Begin to verify a resolved version. Nothing is returned when a newer
version came first. -/
def startVerification (number : Nat) (resolved : Resolved) : SessionM (Option Verified) := do
  let verified := Verified.start resolved
  if ← publish number (.verified verified) then return some verified else return none

/-- End the verification of a version. It is settled if its last snapshot is
complete. -/
def finishVerification (number : Nat) (version : Int) (last : Option Verified) :
    SessionM Unit := do
  change number (.verificationEnded version)
  match last.filter Verified.complete with
  | none => return ()
  | some verified =>
      log "project" .debug <|
        "verified " ++ (← manager number).project ++ " v" ++ toString version
      change number (.verified version verified)

/-- Verify a version from the snapshot it has come to. -/
def runVerification (services : Services) (number : Nat) (version : Int)
    (begin : SessionM (Option Verified)) : SessionM Unit := do
  change number (.verificationBegun version)
  match ← begin with
  | none => finishVerification number version none
  | some verified =>
      let last ← verifyUnits services number version verified.resolved.units verified
      finishVerification number version last

/-- Verify the latest version of a manager once it is resolved. Nothing is done
for a version that is settled or being verified. -/
def verifyEverything (services : Services) (number : Nat) : SessionM Unit := do
  if ← waitUntil number Manager.isReady then
    let manager ← manager number
    let version := manager.latest.version
    if version ≤ manager.settled ∨ manager.verifying = some version then
      return ()
    else
      match manager.latest with
      | .unloaded _ | .parsed _ => return ()
      | .resolved resolved =>
          runVerification services number version (startVerification number resolved)
      | .verified verified =>
          runVerification services number version (return some verified)
  else
    return ()

/-- The newest snapshot verified in full, once the latest version is settled.
Nothing is returned when the wait is given up or the version was settled
without being verified. -/
def awaitVerified (number : Nat) : SessionM (Option Verified) := do
  let target := (← manager number).latest.version
  if ← waitUntil number fun manager => manager.isSettled target then
    return (← manager number).lastVerified.filter fun verified =>
      target ≤ verified.compilation.version
  else
    return none

end Proofline.SessionM
