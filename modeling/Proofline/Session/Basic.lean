import Proofline.Session.Event

/-!
# Sessions

A session holds the managers of all projects that were ever opened, the
catalog of those still open, the journals of all parsed programs, and the
chronicle of everything that happened. Requests run one inside another, never
side by side: while a service runs a step, the step that called the service
waits. The session therefore is one state that is threaded through all of
them, and it knows of the innermost running step how deeply it is nested and
whether it was canceled.
-/

namespace Proofline

/-- The state of one project. -/
structure Manager where
  /-- The name under which the project was opened. -/
  project : String := ""
  /-- The newest snapshot that was accepted. -/
  latest : Snapshot := default
  /-- The newest version that will not change any more without being asked
  to. -/
  settled : Int := -1
  /-- The number of updates that have not ended. -/
  inFlight : Nat := 0
  /-- The version being verified. -/
  verifying : Option Int := none
  /-- The newest version that was verified in full. -/
  lastVerified : Option Verified := none
deriving Inhabited

namespace Manager

/-- Whether nothing was loaded and nothing is being loaded. -/
def isIdleUnloaded (manager : Manager) : Bool :=
  manager.latest.stage = .unloaded && manager.inFlight = 0

/-- Whether the latest version is resolved, or will not be. -/
def isReady (manager : Manager) : Bool :=
  manager.latest.version ≤ manager.settled || Stage.resolved.rank ≤ manager.latest.stage.rank ||
    manager.isIdleUnloaded

/-- Whether a version is settled, or was never loaded. -/
def isSettled (manager : Manager) (version : Int) : Bool :=
  version ≤ manager.settled || manager.isIdleUnloaded

/-- Whether a document is the project itself or one of its root documents. -/
def contains (manager : Manager) (uri : String) : Bool :=
  uri = manager.project || manager.latest.compilation.isRoot uri

/-- The stage and version the project has come to. -/
def standing (manager : Manager) : Stage × Int :=
  (manager.latest.stage, manager.latest.version)

/-- The manager of a project that was just opened. -/
def initial (compilation : Compilation) : Manager where
  project := compilation.project
  latest := .unloaded { compilation }

/-- The manager with a version settled, which was verified in full if a
snapshot is given. Versions settle in ascending order. -/
def settle (manager : Manager) (version : Int) (verified : Option Verified) : Manager :=
  { manager with
    settled := max manager.settled version
    lastVerified :=
      match verified, manager.lastVerified with
      | none, last => last
      | some verified, none => some verified
      | some verified, some last =>
          if last.compilation.version ≤ version then some verified else some last }

/-- The manager after something happened to it. -/
def after (manager : Manager) : Change → Manager
  | .accepted snapshot => { manager with latest := snapshot }
  | .updateBegun _ => { manager with inFlight := manager.inFlight + 1 }
  | .updateEnded _ _ => { manager with inFlight := manager.inFlight - 1 }
  | .gaveUp version _ => manager.settle version none
  | .verified version snapshot => manager.settle version (some snapshot)
  | .verificationBegun version => { manager with verifying := some version }
  | .verificationEnded version =>
      if manager.verifying = some version then { manager with verifying := none } else manager

end Manager

/-- What the publisher does after a later publication for a document. -/
structure Trigger where
  uri : String
  /-- How many publications pass before it acts. -/
  after : Nat := 0
  /-- The message it fails with; without one it cancels the innermost step. -/
  failure : Option String := none
deriving DecidableEq, Repr

/-- A value kept under a name for later steps. -/
inductive Keepsake where
  | snapshot (snapshot : Snapshot)
  | trees (trees : ProgressTrees)

namespace Keepsake

/-- The progress trees of a kept value. -/
def progress : Keepsake → ProgressTrees
  | .snapshot kept => kept.trees
  | .trees kept => kept

end Keepsake

/-- One line of the chronicle: an event, the depth of the step during which it
happened, and the managers as they stood then. -/
structure ChronicleEntry where
  depth : Nat
  managers : Table Nat Manager
  event : Event

/-- The state of a session. -/
structure Session where
  options : Options := {}
  /-- All managers by number, in the order in which they were opened. -/
  managers : Table Nat Manager := ∅
  /-- The numbers of the managers that are open, by project. -/
  catalog : Table String Nat := ∅
  /-- All journals, numbered in the order in which they were opened. -/
  journals : List Journal := []
  /-- The values kept for later steps. -/
  kept : Table String Keepsake := ∅
  /-- What the publisher was told to do, oldest first. -/
  triggers : List Trigger := []
  /-- The manager whose state is shown with each publication. -/
  watched : Option Nat := none
  /-- How deeply the innermost running step is nested. -/
  depth : Nat := 0
  /-- Whether the innermost running step is canceled. -/
  canceled : Bool := false
  /-- Everything that happened, oldest first. -/
  chronicle : List ChronicleEntry := []
deriving Inhabited

/-- Why an action ends without a value. -/
inductive Stop where
  /-- It failed with a message; a caller may go on. -/
  | failed (message : String)
  /-- It waits for something that can no longer happen. -/
  | stuck
  /-- It was asked for something that does not exist. -/
  | misused
deriving DecidableEq, Repr

/-- Actions on a session. What an action did before it ended without a value
remains done. -/
abbrev SessionM := ExceptT Stop (StateM Session)

namespace Session

/-- The manager with the given number. -/
def manager (session : Session) (number : Nat) : Manager :=
  session.managers.getD number default

/-- The journal with the given number. -/
def journal (session : Session) (number : Nat) : Journal :=
  session.journals.getD number default

/-- The session with events entered into the chronicle. -/
def enter (session : Session) (events : List Event) : Session :=
  { session with
    chronicle := session.chronicle ++ events.map fun event =>
      { depth := session.depth, managers := session.managers, event } }

/-- The session after something happened to a manager. Every change is entered
into the chronicle, which therefore shows every state of every manager. -/
def change (session : Session) (number : Nat) (change : Change) : Session :=
  { session with
    managers := session.managers.insert number ((session.manager number).after change) }.enter
      [.changed number change]

/-- The session with a new journal for a project. -/
def openJournal (session : Session) (project : String) : Session :=
  { session with journals := session.journals ++ [.empty session.options project] }

/-- The session after a report to the journal with the given number. What is reported is
entered into the chronicle; where there is no journal, nothing is. -/
def report (session : Session) (number : Nat) (report : Report) : Session :=
  if number < session.journals.length then
    { session with
      journals := session.journals.modify number fun journal => journal.report report }.enter
        [.reported number report]
  else
    session

@[simp]
theorem enter_nil (session : Session) : session.enter [] = session := by
  simp [enter]

theorem enter_enter (session : Session) (first second : List Event) :
    (session.enter first).enter second = session.enter (first ++ second) := by
  simp [enter]

@[simp]
theorem manager_enter (session : Session) (events : List Event) (number : Nat) :
    (session.enter events).manager number = session.manager number :=
  rfl

@[simp]
theorem manager_change_self (session : Session) (number : Nat) (change : Change) :
    (session.change number change).manager number = (session.manager number).after change := by
  simp [Session.change, enter, manager]

theorem manager_change_of_ne (session : Session) {number other : Nat} (ne : number ≠ other)
    (change : Change) :
    (session.change number change).manager other = session.manager other := by
  simp [Session.change, enter, manager, Std.ExtTreeMap.getD_insert, ne]

/-- The shown events recorded at `depth` since the chronicle had `length`
entries, with successive log lines joined. -/
def eventsSince (session : Session) (length depth : Nat) : List Event :=
  Event.joinLogLines <|
    (session.chronicle.drop length).filterMap fun entry =>
      if entry.depth = depth ∧ entry.event.isShown then some entry.event else none

end Session

namespace SessionM

/-- The manager with the given number. -/
def manager (number : Nat) : SessionM Manager :=
  return (← get).manager number

/-- Let something happen to the manager with the given number. -/
def change (number : Nat) (change : Change) : SessionM Unit :=
  modify fun session => session.change number change

/-- The journal with the given number. -/
def journal (number : Nat) : SessionM Journal :=
  return (← get).journal number

/-- Open a journal for a project and return its number. -/
def openJournal (project : String) : SessionM Nat := do
  let session ← get
  set (session.openJournal project)
  return session.journals.length

/-- Report to the journal with the given number, if there is one. -/
def report (number : Nat) (report : Report) : SessionM Unit :=
  modify fun session => session.report number report

/-- Whether the innermost running step is canceled. -/
def isCanceled : SessionM Bool :=
  return (← get).canceled

/-- Cancel the innermost running step. -/
def cancel : SessionM Unit :=
  modify fun session => { session with canceled := true }

/-- Enter an event into the chronicle. -/
def record (event : Event) : SessionM Unit :=
  modify fun session => session.enter [event]

/-- Write a log line under `tag` if its level is enabled. -/
def log (tag : String) (level : LogLevel) (message : String) : SessionM Unit := do
  match ((← get).options.logger tag).line? level message with
  | none => return ()
  | some line => record (.logged line)

/-- Run an action and turn a failure into a value. -/
def attempt {α : Type} (action : SessionM α) : SessionM (Except String α) :=
  ExceptT.mk do
    match ← action.run with
    | .ok value => return .ok (.ok value)
    | .error (.failed message) => return .ok (.error message)
    | .error .stuck => return .error .stuck
    | .error .misused => return .error .misused

variable {α β : Type}

@[simp]
theorem run_pure (value : α) (session : Session) :
    (pure value : SessionM α).run session = (.ok value, session) :=
  rfl

@[simp]
theorem run_throw (stop : Stop) (session : Session) :
    (throw stop : SessionM α).run session = (.error stop, session) :=
  rfl

@[simp]
theorem run_get (session : Session) :
    (get : SessionM Session).run session = (.ok session, session) :=
  rfl

@[simp]
theorem run_set (session after : Session) :
    (set after : SessionM Unit).run session = (.ok (), after) :=
  rfl

@[simp]
theorem run_modify (change : Session → Session) (session : Session) :
    (modify change : SessionM Unit).run session = (.ok (), change session) :=
  rfl

/-- What an action did before it ended without a value remains done. -/
theorem run_bind (action : SessionM α) (next : α → SessionM β) (session : Session) :
    (action >>= next).run session =
      match action.run session with
      | (.ok value, after) => (next value).run after
      | (.error stop, after) => (.error stop, after) := by
  rw [ExceptT.run_bind]
  simp only [bind, StateT.bind]
  rcases action.run session with ⟨outcome, after⟩
  cases outcome <;> rfl

@[simp]
theorem run_manager (number : Nat) (session : Session) :
    (manager number).run session = (.ok (session.manager number), session) :=
  rfl

@[simp]
theorem run_journal (number : Nat) (session : Session) :
    (journal number).run session = (.ok (session.journal number), session) :=
  rfl

@[simp]
theorem run_isCanceled (session : Session) :
    isCanceled.run session = (.ok session.canceled, session) :=
  rfl

@[simp]
theorem run_cancel (session : Session) :
    cancel.run session = (.ok (), { session with canceled := true }) :=
  rfl

@[simp]
theorem run_record (event : Event) (session : Session) :
    (record event).run session = (.ok (), session.enter [event]) :=
  rfl

@[simp]
theorem run_change (number : Nat) (change : Change) (session : Session) :
    (SessionM.change number change).run session = (.ok (), session.change number change) :=
  rfl

theorem run_log (tag : String) (level : LogLevel) (message : String) (session : Session) :
    (log tag level message).run session =
      (.ok (), session.enter
        (((session.options.logger tag).line? level message).toList.map .logged)) := by
  unfold log
  rw [run_bind, run_get]
  simp only
  cases (session.options.logger tag).line? level message with
  | none => simp only [run_pure, Option.toList_none, List.map_nil, Session.enter_nil]
  | some line => rfl

theorem run_attempt (action : SessionM α) (session : Session) :
    (attempt action).run session =
      match action.run session with
      | (.ok value, after) => (.ok (.ok value), after)
      | (.error (.failed message), after) => (.ok (.error message), after)
      | (.error .stuck, after) => (.error .stuck, after)
      | (.error .misused, after) => (.error .misused, after) := by
  unfold attempt
  simp only [ExceptT.run_mk, bind, StateT.bind]
  rcases action.run session with ⟨outcome, after⟩
  cases outcome with
  | ok value => rfl
  | error stop => cases stop <;> rfl

@[simp]
theorem snd_run_attempt (action : SessionM α) (session : Session) :
    ((attempt action).run session).2 = (action.run session).2 := by
  rw [run_attempt]
  rcases action.run session with ⟨(_ | _ | _) | _, _⟩ <;> rfl

end SessionM

end Proofline
