import Proofline.Cancellation
import Proofline.Counterexample.Item
import Proofline.Project.Snapshot

/-!
# Events and answers

Running a step of a session yields an answer: what the request returned or
which failure it ended with, where the addressed manager stands, and the
events that happened meanwhile. A service may run further steps while it is
called; each of them is an event with an answer of its own.
-/

namespace Proofline

/-- How an update ended. -/
inductive UpdateStatus where
  | resolved
  /-- Parsing reported errors, so the version goes no further. -/
  | parseErrors
  | canceled
  /-- A newer version came first. -/
  | superseded
  /-- A service failed. -/
  | failed
deriving DecidableEq, Repr, Inhabited

namespace UpdateStatus

/-- All ways in which an update can end. -/
def all : List UpdateStatus := [resolved, parseErrors, canceled, superseded, failed]

/-- The name under which the end of an update is reported. -/
def name : UpdateStatus → String
  | resolved => "resolved"
  | parseErrors => "parse-errors"
  | canceled => "canceled"
  | superseded => "superseded"
  | failed => "failed"

end UpdateStatus

/-- What a request returns. -/
inductive Reply where
  | nothing
  | flag (flag : Bool)
  | text (text : String)
  /-- The number of a manager, if there is one. -/
  | manager (number : Option Nat)
  | status (status : UpdateStatus)
  /-- A snapshot, if there is one. -/
  | snapshot (snapshot : Option Snapshot)
  | items (items : List Item)
  | trees (trees : ProgressTrees)
  /-- The loader stopped without a snapshot. -/
  | declined (reason : CancelReason)

/-- The answer to a step, over the events that can happen. -/
structure AnswerOf (ε : Type) where
  /-- What the request returned, or the message it failed with. -/
  outcome : Except String Reply
  /-- The stage and version of the addressed manager after the step. -/
  standing : Option (Stage × Int)
  events : List ε

/-- What a client has been told about a document by a watching manager: whether
the document belongs to it, and its stage and version. -/
structure WatchedState where
  contains : Bool
  stage : Stage
  version : Int
deriving DecidableEq, Repr

/-- What the publisher is told about one document. -/
structure Publication where
  uri : String
  version : Int
  diagnostics : List Diagnostic
  watched : Option WatchedState
  /-- The message the publisher failed with, if it failed. -/
  failure : Option String

/-- What can happen to a manager. -/
inductive Change where
  /-- A snapshot became the latest one. -/
  | accepted (snapshot : Snapshot)
  | updateBegun (version : Int)
  | updateEnded (version : Int) (status : UpdateStatus)
  /-- The version was settled by an update that did not resolve it. -/
  | gaveUp (version : Int) (status : UpdateStatus)
  /-- The version was settled by a verification that came to its end. -/
  | verified (version : Int) (snapshot : Verified)
  | verificationBegun (version : Int)
  | verificationEnded (version : Int)

/-- What can happen during a step. -/
inductive Event where
  /-- The parser is called for a version. -/
  | parsing (version : Int)
  /-- Something was reported to a journal. -/
  | reported (journal : Nat) (report : Report)
  /-- The resolver is called for a project, to report to a journal. -/
  | resolving (project : String) (journal : Nat)
  /-- The signatures of so many symbols are asked for. -/
  | collectingSignatures (symbols : Nat)
  /-- The symbols of a version are asked for. -/
  | collectingSymbols (version : Int)
  /-- The ghost code over so many signatures is checked. -/
  | checkingGhosts (symbols : Nat)
  /-- The verifier is called by a manager for a unit of a version. -/
  | verifying (manager : Nat) (version : Int) (unit : Declaration)
  /-- A manager was created for a project. -/
  | opened (manager : Nat) (compilation : Compilation)
  /-- Something happened to a manager. -/
  | changed (manager : Nat) (change : Change)
  /-- A manager published the diagnostics of a document. -/
  | published (manager : Nat) (publication : Publication)
  /-- A failure was reported to the operator. -/
  | failureReported (component message : String)
  /-- A log line was written. -/
  | logged (line : String)
  /-- A service ran a step of its own. -/
  | stepped (answer : AnswerOf Event)

/-- The answer to a step. -/
abbrev Answer := AnswerOf Event

namespace Event

/-- Whether an event is part of an answer. What happens inside a manager or a
journal shows only in what is published. -/
def isShown : Event → Bool
  | opened _ _ | changed _ _ | reported _ _ => false
  | _ => true

/-- The events with successive log lines joined. -/
def joinLogLines : List Event → List Event
  | [] => []
  | event :: rest =>
      match event, joinLogLines rest with
      | logged line, logged lines :: others => logged (line ++ lines) :: others
      | _, joined => event :: joined

end Event

end Proofline
