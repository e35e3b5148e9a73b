import Proofline.Session.Request
import Proofline.Session.Script

/-!
# Steps and runs

A step is a request together with the plan its services follow while it is
carried out. The scripts of the plan may hold steps again, so steps are
graded by how deeply they nest. A run performs steps one after the other; it
ends early when a step waits for something that cannot happen any more.
-/

namespace Proofline

/-- A request with the plan of its services, over the steps they can run. -/
structure StepOf (σ : Type) where
  request : Request
  /-- Whether the step is canceled from the start. -/
  canceled : Bool := false
  plan : Plan σ

/-- Steps whose services nest at most `n` levels deep. -/
def Step : Nat → Type
  | 0 => StepOf Empty
  | n + 1 => StepOf (Step n)

namespace StepOf

variable {σ : Type}

/-- Perform a step: carry its request out at the next depth, and restore the
context of the step around it. -/
def perform (inner : σ → SessionM Answer) (step : StepOf σ) : SessionM Answer := do
  let outer ← get
  let depth := outer.depth + 1
  set { outer with depth, canceled := step.canceled }
  let outcome ← SessionM.attempt (step.request.carryOut (step.plan.services inner))
  let session ← get
  set { session with depth := outer.depth, canceled := outer.canceled }
  return {
    outcome
    standing := step.request.manager?.map fun number => (session.manager number).standing
    events := session.eventsSince outer.chronicle.length depth }

end StepOf

namespace Step

/-- Perform a step that nests at most `n` levels deep. -/
def perform : (n : Nat) → Step n → SessionM Answer
  | 0, step => StepOf.perform (fun inner => nomatch inner) step
  | n + 1, step => StepOf.perform (perform n) step

/-- Perform steps one after the other. -/
def performAll (n : Nat) (steps : List (Step n)) : SessionM (List Answer) :=
  steps.mapM (perform n)

end Step

namespace Session

/-- The session in which nothing has happened yet. -/
def initial (options : Options) : Session :=
  { options }

/-- Run steps from the start: their answers, or why there are none, and the
session they lead to. -/
def run (options : Options) (n : Nat) (steps : List (Step n)) :
    Except Stop (List Answer) × Session :=
  (Step.performAll n steps).run (initial options)

end Session

end Proofline
