import Proofline.Table

/-!
# The worker

A worker runs jobs one at a time, in the order of their submission. A job ends
with a value or a failure, which is kept for whoever waits for that job; a
failure does not end the worker, and a wait that is given up does not touch
the job. A worker that is asked to end first runs everything it was given, and
what the jobs submit meanwhile.
-/

namespace Proofline

/-- Work to be done, told whether it runs on the worker. -/
structure Job (α : Type) where
  run : Bool → Except String α

/-- A queue of jobs with one consumer. Jobs are numbered from zero in the order
of submission. -/
structure Worker (α : Type) where
  stackSize : Nat
  /-- How many jobs were submitted. -/
  submitted : Nat := 0
  /-- The jobs not yet started, oldest first. -/
  queue : List (Nat × Job α) := []
  /-- The job that runs, if one does. -/
  running : Option (Nat × Job α) := none
  /-- The jobs started so far, in order. -/
  started : List Nat := []
  /-- How the finished jobs ended. -/
  outcomes : Table Nat (Except String α) := ∅
  /-- Whether the worker was asked to end. -/
  closing : Bool := false
  /-- Whether the worker has ended. -/
  ended : Bool := false

/-- Why there is no worker. -/
inductive WorkerError where
  /-- The platform has no stacks as small as that. -/
  | stackTooSmall
deriving DecidableEq, Repr

namespace WorkerError

/-- The message for a worker that could not be created. -/
def message : WorkerError → String
  | stackTooSmall => "large stack worker: Invalid argument"

end WorkerError

/-- What can happen to a worker. -/
inductive WorkerStep (α : Type) where
  /-- A job is submitted. -/
  | submit (job : Job α)
  /-- The oldest waiting job is started. -/
  | start
  /-- The running job ends. -/
  | finish
  /-- Somebody gives up waiting for a job. -/
  | abandonWait (job : Nat)
  /-- The worker is asked to end. -/
  | close
  /-- The worker ends. -/
  | stop

/-- What somebody who waits for a job gets. -/
inductive WaitAnswer (α : Type) where
  /-- How the job ended. -/
  | received (outcome : Except String α)
  /-- Nothing, since the wait was canceled. -/
  | givenUp
  /-- Nothing yet. -/
  | goesOn

namespace Worker

variable {α : Type}

/-- The smallest stack the platform provides, in bytes. -/
def leastStackSize : Nat := 16384

/-- A worker without jobs. -/
def create (stackSize : Nat) : Except WorkerError (Worker α) :=
  if stackSize < leastStackSize then .error .stackTooSmall else .ok { stackSize }

/-- The number of jobs queued but not yet started. -/
def pending (worker : Worker α) : Nat :=
  worker.queue.length

/-- The jobs started or waiting, in the order of their submission. -/
def order (worker : Worker α) : List Nat :=
  worker.started ++ worker.queue.map Prod.fst

/-- Put a job at the end of the queue. -/
def submit (worker : Worker α) (job : Job α) : Worker α :=
  { worker with
    submitted := worker.submitted + 1
    queue := worker.queue ++ [(worker.submitted, job)] }

/-- Start the oldest waiting job. This needs an idle worker and a waiting
job. -/
def start? (worker : Worker α) : Option (Worker α) :=
  match worker.running, worker.queue with
  | none, (number, job) :: queue =>
      some { worker with
        queue
        running := some (number, job)
        started := worker.started ++ [number] }
  | _, _ => none

/-- End the running job and keep how it ended. -/
def finish? (worker : Worker α) : Option (Worker α) :=
  worker.running.map fun (number, job) =>
    { worker with
      running := none
      outcomes := worker.outcomes.insert number (job.run true) }

/-- Whether the worker was asked to end and has nothing left to run. -/
def isDone (worker : Worker α) : Bool :=
  worker.closing && worker.running.isNone && worker.queue.isEmpty

theorem isDone_iff (worker : Worker α) :
    worker.isDone = true ↔
      worker.closing = true ∧ worker.running = none ∧ worker.queue = [] := by
  simp [isDone, and_assoc]

/-- The worker after a step, if the step is possible. Jobs can be submitted
until the worker has ended: while it is asked to end, the job that runs may
submit some, and they are run as well. -/
def step? (worker : Worker α) : WorkerStep α → Option (Worker α)
  | .submit job => if worker.ended then none else some (worker.submit job)
  | .start => worker.start?
  | .finish => worker.finish?
  | .abandonWait _ => some worker
  | .close => some { worker with closing := true }
  | .stop => if worker.isDone then some { worker with ended := true } else none

/-- The worker after steps, if all of them are possible. -/
def run? (worker : Worker α) (steps : List (WorkerStep α)) : Option (Worker α) :=
  steps.foldlM step? worker

/-- What a look at the job with the given number tells somebody who waits for
it. The outcome counts also for a wait that is canceled. -/
def look (worker : Worker α) (number : Nat) (canceled : Bool) : WaitAnswer α :=
  match worker.outcomes[number]? with
  | some outcome => .received outcome
  | none => if canceled then .givenUp else .goesOn

/-- Run the queued jobs one after the other. -/
def runQueued (worker : Worker α) : List (Nat × Job α) → Worker α
  | [] => worker
  | _ :: rest =>
      match worker.start? >>= finish? with
      | none => worker
      | some next => runQueued next rest

/-- End the running job, if there is one, and run everything that waits. -/
def drain (worker : Worker α) : Worker α :=
  let idle := worker.finish?.getD worker
  idle.runQueued idle.queue

end Worker

/-- What can be seen of a worker that was held up while jobs were
submitted. -/
structure HeldRun (α : Type) where
  /-- The jobs waiting while the worker was held up. -/
  pending : Nat
  /-- For each wait given up meanwhile whether it had a result. -/
  waits : List (Nat × Bool)
  /-- How the jobs ended, in the order of submission. -/
  outcomes : List (Except String α)
  /-- The jobs in the order in which they were started. -/
  order : List Nat

namespace Worker

variable {α : Type}

/-- Hold a new worker up with a job of its own, submit `jobs`, give up the
waits for the jobs numbered `impatient`, and then let everything run. -/
def runHeld (worker : Worker α) (blocker : Job α) (jobs : List (Job α)) (impatient : List Nat) :
    HeldRun α :=
  let held := ((worker.submit blocker).start?).getD worker
  let loaded := jobs.foldl submit held
  let drained := loaded.drain
  { pending := loaded.pending
    waits := impatient.map fun job =>
      match loaded.look (job + 1) true with
      | .received _ => (job, true)
      | _ => (job, false)
    outcomes := (List.range jobs.length).filterMap fun job => drained.outcomes[job + 1]?
    order := drained.started.filterMap fun job => if job = 0 then none else some (job - 1) }

end Worker

end Proofline
