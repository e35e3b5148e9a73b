import Proofline.Session.Catalog
import Proofline.Session.Verification

/-!
# Requests for counterexamples

A request names a document. The project of the document is verified if that
has not happened yet, and the counterexamples found are shown. A request that
cannot be served is answered with an empty list; failures are reported to the
operator and never reach the client.
-/

namespace Proofline.SessionM

/-- The tag of log lines about requests, and the component of their
failures. -/
def counterexampleTag : String := "counterexample"

/-- The items of a verified snapshot, asked for on behalf of `uri`. -/
def itemsOfVerified (uri : String) (depth : Nat) (verified : Verified) :
    SessionM (List Item) := do
  if verified.counterexamples.isEmpty then
    log counterexampleTag .debug ("no counterexamples for " ++ uri)
    return []
  else
    match Model.extract verified.counterexamples depth (← isCanceled) with
    | .ok items => return items
    | .error .canceled => return []
    | .error (.unreadable model state) =>
        reportFailure counterexampleTag <|
          "model " ++ Nat.repr model ++ ", state '" ++ state ++ "': " ++ ExtractionStop.complaint
        return []

/-- The counterexamples of the project numbered `number`. -/
def counterexamplesOf (services : Services) (number : Nat) (uri : String) (depth : Nat) :
    SessionM (List Item) := do
  verifyEverything services number
  match ← awaitVerified number with
  | none =>
      log counterexampleTag .warning <|
        "no verified snapshot of " ++ (← manager number).project ++ " for " ++ uri
      return []
  | some verified => itemsOfVerified uri depth verified

/-- The counterexamples of the project to which a document belongs. -/
def counterexamples (services : Services) (uri : String) (depth : Nat) :
    SessionM (List Item) := do
  match (← get).findProject? uri with
  | none =>
      log counterexampleTag .warning <|
        "counterexamples requested for unknown document " ++ uri
      return []
  | some number => counterexamplesOf services number uri depth

/-- Serve a request for counterexamples. A failure is reported and answered
with an empty list. -/
def serveCounterexamples (services : Services) (uri : String) (depth : Nat) :
    SessionM (List Item) := do
  match ← attempt (counterexamples services uri depth) with
  | .ok items => return items
  | .error message =>
      reportFailure counterexampleTag message
      return []

end Proofline.SessionM
