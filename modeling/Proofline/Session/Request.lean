import Proofline.Session.CounterexampleRequest
import Proofline.Session.Update

/-!
# Requests

Everything a session can be asked for: to open, find and close projects, to
update, verify and inspect them, to serve counterexamples, and to load
snapshots step by step outside any project. A request that addresses a
manager or a kept value that does not exist is misused.
-/

namespace Proofline

/-- What a session can be asked for. -/
inductive Request where
  /-- Open a project and return the number of its manager. -/
  | openProject (compilation : Compilation)
  /-- The manager of the project to which a document belongs. -/
  | findProject (uri : String)
  | closeProject (project : String)
  | update (manager : Nat) (compilation : Compilation)
  | verify (manager : Nat)
  | await (manager : Nat)
  /-- The latest snapshot of a manager, possibly kept under a name. -/
  | latest (manager : Nat) (keep : Option String)
  | contains (manager : Nat) (uri : String)
  | projectUri (manager : Nat)
  | counterexamples (uri : String) (depth : Nat)
  /-- Show the state of a manager with each publication, or of none. -/
  | watch (manager : Option Nat)
  /-- Tell the publisher what to do. -/
  | onPublish (trigger : Trigger)
  | unloaded (compilation : Compilation) (keep : Option String)
  /-- Parse with the trees of a kept value. -/
  | parse (compilation : Compilation) (migrated : Option String) (keep : Option String)
  /-- Resolve a kept snapshot with the trees of a kept value. -/
  | resolve (parsed : String) (migrated : Option String) (keep : Option String)
  /-- Begin to verify a kept snapshot. -/
  | startVerified (resolved : String) (keep : Option String)
  /-- Record a result in a kept snapshot. -/
  | withResult (verified : String) (unit : Declaration) (outcome : Outcome)
      (keep : Option String)
  /-- A kept snapshot. -/
  | keptSnapshot (name : String)
  /-- Carry the trees of a kept value over to a version. -/
  | migrate (source : String) (compilation : Compilation) (keep : Option String)

namespace SessionM

/-- Keep a value under a name, if one is given. -/
def keep (name : Option String) (value : Keepsake) : SessionM Unit :=
  match name with
  | none => return ()
  | some name => modify fun session => { session with kept := session.kept.insert name value }

/-- The value kept under a name. -/
def keepsake (name : String) : SessionM Keepsake := do
  match (← get).kept[name]? with
  | none => throw .misused
  | some value => return value

/-- The trees kept under a name; none without a name. -/
def keptTrees (name : Option String) : SessionM ProgressTrees := do
  match name with
  | none => return ∅
  | some name => return (← keepsake name).progress

/-- Go on with a manager that exists. -/
def withManager {α : Type} (number : Nat) (action : SessionM α) : SessionM α := do
  if number ∈ (← get).managers then action else throw .misused

/-- Keep a snapshot and return it. -/
def keepSnapshot (name : Option String) (snapshot : Snapshot) : SessionM Reply := do
  keep name (.snapshot snapshot)
  return .snapshot (some snapshot)

end SessionM

namespace Request

open SessionM (withManager keep keepSnapshot keepsake keptTrees)

/-- The manager whose state is told after the request. -/
def manager? : Request → Option Nat
  | update number _ | verify number | await number | latest number _ | contains number _
  | projectUri number => some number
  | openProject _ | findProject _ | closeProject _ | counterexamples _ _ | watch _ | onPublish _
  | unloaded _ _ | parse .. | resolve .. | startVerified _ _ | withResult .. | keptSnapshot _
  | migrate .. => none

/-- Carry a request out. -/
def carryOut (services : Services) : Request → SessionM Reply
  | openProject compilation => do
      let (session, number) := (← get).openProject compilation
      set session
      return .manager (some number)
  | findProject uri => return .manager ((← get).findProject? uri)
  | closeProject project => do
      modify fun session => session.closeProject project
      return .nothing
  | update number compilation =>
      withManager number do return .status (← SessionM.update services number compilation)
  | verify number =>
      withManager number do
        SessionM.verifyEverything services number
        return .nothing
  | await number =>
      withManager number do
        return .snapshot ((← SessionM.awaitVerified number).map Snapshot.verified)
  | latest number name =>
      withManager number do keepSnapshot name (← SessionM.manager number).latest
  | contains number uri =>
      withManager number do return .flag ((← SessionM.manager number).contains uri)
  | projectUri number => withManager number do return .text (← SessionM.manager number).project
  | counterexamples uri depth =>
      return .items (← SessionM.serveCounterexamples services uri depth)
  | watch none => do
      modify fun session => { session with watched := none }
      return .nothing
  | watch (some number) =>
      withManager number do
        modify fun session => { session with watched := some number }
        return .nothing
  | onPublish trigger => do
      modify fun session => { session with triggers := session.triggers ++ [trigger] }
      return .nothing
  | unloaded compilation name => keepSnapshot name (.unloaded { compilation })
  | parse compilation migrated name => do
      let migrated ← keptTrees migrated
      match ← SessionM.parse services compilation migrated with
      | .error reason => return .declined reason
      | .ok parsed => keepSnapshot name (.parsed parsed)
  | resolve parsed migrated name => do
      let migrated ← keptTrees migrated
      match ← keepsake parsed with
      | .snapshot (.parsed parsed) =>
          match ← SessionM.resolve services parsed migrated with
          | .error reason => return .declined reason
          | .ok resolved => keepSnapshot name (.resolved resolved)
      | _ => throw .misused
  | startVerified resolved name => do
      match ← keepsake resolved with
      | .snapshot (.resolved resolved) => keepSnapshot name (.verified (.start resolved))
      | _ => throw .misused
  | withResult verified unit outcome name => do
      match ← keepsake verified with
      | .snapshot (.verified verified) =>
          keepSnapshot name (.verified (verified.withResult unit outcome))
      | _ => throw .misused
  | keptSnapshot name => do
      match ← keepsake name with
      | .snapshot snapshot => return .snapshot (some snapshot)
      | .trees _ => throw .misused
  | migrate source compilation name => do
      let previous := (← keepsake source).progress
      let trees ← SessionM.migrateTrees "migrate" previous compilation
      keep name (.trees trees)
      return .trees trees

end Request

end Proofline
