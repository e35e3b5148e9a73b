import Proofline.Session.Services

/-!
# Scripted services

A script says how a service behaves when it is called: which steps it runs
itself, whether it cancels the step that called it, what it reports, and how
it ends. A plan has a script for every service. Since a request calls each
service at most once, and the verifier at most once for a unit, plans can
express every behaviour of the services during a request.
-/

namespace Proofline

/-- The behaviour of a service that returns a value of type `α`, over the steps
it can run. -/
structure Script (σ α : Type) where
  /-- The steps the service runs first. -/
  steps : List σ := []
  /-- Whether it then cancels the step that called it. -/
  cancels : Bool := false
  /-- What it then reports. -/
  reports : List Report := []
  /-- The message it then fails with, if it fails. -/
  failure : Option String := none
  /-- What it returns otherwise. -/
  reply : α

/-- The behaviour of all services during a request. -/
structure Plan (σ : Type) where
  parse : Script σ (Option Declaration)
  resolve : Script σ (List ResolvedSymbol)
  /-- The signatures returned are always those of the resolved symbols. -/
  signatures : Script σ Unit
  symbols : Script σ (List ResolvedSymbol)
  ghosts : Script σ (List Diagnostic)
  verify : Declaration → Script σ Outcome

namespace Script

variable {σ α : Type}

/-- Run the steps of a service, each of which is an event. -/
def runSteps (perform : σ → SessionM Answer) : List σ → SessionM Unit
  | [] => return ()
  | step :: rest => do
      SessionM.record (.stepped (← perform step))
      runSteps perform rest

/-- End with the reply, or with the failure if there is one. -/
def conclude (script : Script σ α) : SessionM α :=
  match script.failure with
  | some message => throw (.failed message)
  | none => return script.reply

/-- Follow a script whose reports go to `report`. -/
def follow (perform : σ → SessionM Answer) (report : Report → SessionM Unit)
    (script : Script σ α) : SessionM α := do
  runSteps perform script.steps
  if script.cancels then SessionM.cancel
  script.reports.forM report
  script.conclude

end Script

namespace Plan

variable {σ : Type}

/-- Reports of a service without a journal go nowhere. -/
def noJournal (_ : Report) : SessionM Unit :=
  return ()

/-- The services that follow a plan. -/
def services (perform : σ → SessionM Answer) (plan : Plan σ) : Services where
  parse _ journal := plan.parse.follow perform (SessionM.report journal)
  resolve _ program := plan.resolve.follow perform (SessionM.report program.journal)
  signatures symbols := do
    plan.signatures.follow perform noJournal
    return { symbols, resolved := true }
  symbols _ _ := do
    return { declarations := ← plan.symbols.follow perform noJournal }
  ghosts _ := plan.ghosts.follow perform noJournal
  verify unit := (plan.verify unit).follow perform noJournal

end Plan

end Proofline
