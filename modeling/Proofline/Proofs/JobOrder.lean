import Mathlib.Data.List.Nodup
import Proofline.Worker

/-!
# The order of jobs

At every moment the jobs submitted so far are those that have ended, then the one that runs, if one
does, and then the queue. Every step keeps this: a submission adds a job at the end, a start and an
end of a job move a boundary, and nothing else concerns the jobs. So no job is lost or run twice,
whatever becomes of the others, and a worker that has ended has run them all. A worker that is asked
to end gets there by steps of its own. What is seen of a worker that was held up follows from this,
since running everything that waits is a run of the worker.
-/

namespace Proofline

variable {α : Type}

/-- The job submitted in a step, if the step is a submission. -/
def WorkerStep.job? : WorkerStep α → Option (Job α)
  | submit job => some job
  | _ => none

/-- The jobs submitted in the course of steps, in the order of their submission. -/
def submittedJobs (steps : List (WorkerStep α)) : List (Job α) :=
  steps.filterMap WorkerStep.job?

theorem submittedJobs_append (first second : List (WorkerStep α)) :
    submittedJobs (first ++ second) = submittedJobs first ++ submittedJobs second :=
  List.filterMap_append

theorem submittedJobs_cons (step : WorkerStep α) (steps : List (WorkerStep α)) :
    submittedJobs (step :: steps) = submittedJobs [step] ++ submittedJobs steps :=
  submittedJobs_append [step] steps

/-- Whether a step is taken by the worker itself. -/
def WorkerStep.isOwn : WorkerStep α → Bool
  | start | finish | stop => true
  | _ => false

/-- Jobs with their numbers. -/
def numbered (jobs : List (Job α)) : List (Nat × Job α) :=
  jobs.zipIdx.map Prod.swap

theorem numbered_append_singleton (jobs : List (Job α)) (job : Job α) :
    numbered (jobs ++ [job]) = numbered jobs ++ [(jobs.length, job)] := by
  simp [numbered, List.zipIdx_append]

theorem map_fst_numbered (jobs : List (Job α)) :
    (numbered jobs).map Prod.fst = List.range jobs.length := by
  rw [numbered, List.map_map, List.range_eq_range']
  exact List.zipIdx_map_snd 0 jobs

theorem map_snd_numbered (jobs : List (Job α)) : (numbered jobs).map Prod.snd = jobs := by
  rw [numbered, List.map_map]
  exact List.zipIdx_map_fst 0 jobs

theorem mem_numbered_iff {jobs : List (Job α)} {number : Nat} {job : Job α} :
    (number, job) ∈ numbered jobs ↔ jobs[number]? = some job := by
  rw [numbered, List.mem_map]
  constructor
  · rintro ⟨⟨_, _⟩, mem, ⟨⟩⟩
    exact List.mem_zipIdx_iff_getElem?.mp mem
  · intro isJob
    exact ⟨(job, number), List.mem_zipIdx_iff_getElem?.mpr isJob, rfl⟩

namespace Worker

/-- The jobs that were started and have no outcome. -/
def unfinished (worker : Worker α) : List Nat :=
  worker.started.filter fun number => worker.outcomes[number]?.isNone

theorem eq_of_create {stackSize : Nat} {worker : Worker α}
    (created : create stackSize = .ok worker) : worker = { stackSize } := by
  unfold create at created
  split at created
  · cases created
  · exact (Except.ok.inj created).symm

theorem look_eq_received_iff {worker : Worker α} {number : Nat} {canceled : Bool}
    {outcome : Except String α} :
    worker.look number canceled = .received outcome ↔
      worker.outcomes[number]? = some outcome := by
  unfold look
  split
  · rename_i kept isKept
    simp [isKept]
  · rename_i isNone
    cases canceled <;> simp [isNone]

theorem look_eq_givenUp_iff {worker : Worker α} {number : Nat} {canceled : Bool} :
    worker.look number canceled = .givenUp ↔
      canceled = true ∧ worker.outcomes[number]? = none := by
  unfold look
  split
  · rename_i kept isKept
    simp [isKept]
  · rename_i isNone
    cases canceled <;> simp [isNone]

/-- The jobs submitted to a worker are those of `done`, which have ended, the one that runs and the
queue, and the worker has kept how those of `done` ended. -/
structure Serves (worker : Worker α) (jobs : List (Job α)) (done : List (Nat × Job α)) : Prop where
  submitted : worker.submitted = jobs.length
  parts : done ++ worker.running.toList ++ worker.queue = numbered jobs
  started : worker.started = (done ++ worker.running.toList).map Prod.fst
  outcomes : ∀ number outcome, worker.outcomes[number]? = some outcome ↔
    ∃ job, (number, job) ∈ done ∧ job.run true = outcome
  atRest : worker.ended = true → worker.running = none ∧ worker.queue = []

namespace Serves

variable {worker next : Worker α} {jobs : List (Job α)} {done : List (Nat × Job α)}

theorem create {stackSize : Nat} (created : create stackSize = .ok worker) :
    worker.Serves [] [] := by
  obtain rfl := eq_of_create created
  exact ⟨rfl, rfl, rfl, by simp, fun _ => ⟨rfl, rfl⟩⟩

theorem isJob (serves : worker.Serves jobs done) {number : Nat} {job : Job α}
    (mem : (number, job) ∈ done ++ worker.running.toList ++ worker.queue) :
    jobs[number]? = some job := by
  rwa [serves.parts, mem_numbered_iff] at mem

/-- A submission to a worker that has not ended adds a job at the end. -/
theorem submit (serves : worker.Serves jobs done) (going : worker.ended = false) (job : Job α) :
    (worker.submit job).Serves (jobs ++ [job]) done where
  submitted := by simp [Worker.submit, serves.submitted]
  parts := by
    rw [numbered_append_singleton, ← serves.parts, ← serves.submitted]
    simp [Worker.submit]
  started := serves.started
  outcomes := serves.outcomes
  atRest hasEnded := by
    rw [show worker.ended = true from hasEnded] at going
    cases going

/-- The job that is started is the first one of the queue, and none runs before. -/
theorem start (serves : worker.Serves jobs done) (started : worker.start? = some next) :
    next.Serves jobs done := by
  unfold start? at started
  split at started
  · rename_i number job queue isIdle isQueue
    obtain rfl := Option.some.inj started
    have parts := serves.parts
    have before := serves.started
    rw [isIdle, isQueue] at parts
    rw [isIdle] at before
    refine ⟨serves.submitted, by simpa using parts, by simp [before], serves.outcomes, ?_⟩
    intro hasEnded
    rw [(serves.atRest hasEnded).2] at isQueue
    cases isQueue
  · cases started

/-- The job that ends is the one that runs, and its outcome is kept under its number. -/
theorem finish (serves : worker.Serves jobs done) (finished : worker.finish? = some next) :
    next.Serves jobs (done ++ worker.running.toList) := by
  obtain ⟨⟨number, job⟩, isRunning, rfl⟩ := Option.map_eq_some_iff.mp finished
  have isJob : jobs[number]? = some job := serves.isJob (by simp [isRunning])
  refine ⟨serves.submitted, by simpa using serves.parts, by simpa using serves.started, ?_, ?_⟩
  · intro other outcome
    rw [isRunning, Option.toList_some, Std.ExtTreeMap.getElem?_insert]
    by_cases same : number = other
    · subst same
      simp only [Std.ReflCmp.compare_self, if_true, Option.some.injEq]
      constructor
      · rintro rfl
        exact ⟨job, by simp, rfl⟩
      · rintro ⟨candidate, mem, rfl⟩
        have isCandidate : jobs[number]? = some candidate :=
          serves.isJob (by rw [isRunning]; exact List.mem_append_left _ mem)
        rw [Option.some.inj (isJob.symm.trans isCandidate)]
    · have differs : compare number other ≠ .eq := by simpa using same
      rw [if_neg differs, serves.outcomes]
      simp [Ne.symm same]
  · intro hasEnded
    exact ⟨rfl, (serves.atRest hasEnded).2⟩

/-- A step adds the job that is submitted in it, if one is. -/
theorem step (serves : worker.Serves jobs done) {step : WorkerStep α}
    (isStep : worker.step? step = some next) :
    ∃ done, next.Serves (jobs ++ submittedJobs [step]) done := by
  cases step with
  | submit job =>
      obtain ⟨going, isNext⟩ := Option.ite_none_left_eq_some.mp isStep
      obtain rfl := Option.some.inj isNext
      exact ⟨done, serves.submit (by simpa using going) job⟩
  | start => exact ⟨done, (List.append_nil jobs).symm ▸ serves.start isStep⟩
  | finish => exact ⟨_, (List.append_nil jobs).symm ▸ serves.finish isStep⟩
  | abandonWait number =>
      obtain rfl := Option.some.inj isStep
      exact ⟨done, (List.append_nil jobs).symm ▸ serves⟩
  | close =>
      obtain rfl := Option.some.inj isStep
      refine ⟨done, (List.append_nil jobs).symm ▸ ?_⟩
      exact ⟨serves.submitted, serves.parts, serves.started, serves.outcomes, serves.atRest⟩
  | stop =>
      obtain ⟨isDone, isNext⟩ := Option.ite_none_right_eq_some.mp isStep
      obtain rfl := Option.some.inj isNext
      obtain ⟨-, atRest⟩ := (isDone_iff worker).mp isDone
      refine ⟨done, (List.append_nil jobs).symm ▸ ?_⟩
      exact ⟨serves.submitted, serves.parts, serves.started, serves.outcomes, fun _ => atRest⟩

/-- Steps add the jobs that are submitted in them. -/
theorem run (serves : worker.Serves jobs done) {steps : List (WorkerStep α)}
    (isRun : worker.run? steps = some next) :
    ∃ done, next.Serves (jobs ++ submittedJobs steps) done := by
  induction steps generalizing worker jobs done with
  | nil =>
      obtain rfl := Option.some.inj isRun
      exact ⟨done, (List.append_nil jobs).symm ▸ serves⟩
  | cons step steps ih =>
      obtain ⟨middle, isStep, isRest⟩ := Option.bind_eq_some_iff.mp isRun
      obtain ⟨done, serves⟩ := serves.step isStep
      rw [submittedJobs_cons, ← List.append_assoc]
      exact ih serves isRest

theorem order_eq (serves : worker.Serves jobs done) :
    worker.order = List.range jobs.length := by
  rw [order, serves.started, ← List.map_append, serves.parts, map_fst_numbered]

theorem nodup_order (serves : worker.Serves jobs done) : worker.order.Nodup := by
  rw [serves.order_eq]
  exact List.nodup_range

/-- The queue holds the jobs that were not started. -/
theorem queued (serves : worker.Serves jobs done) :
    worker.queue.map Prod.snd = jobs.drop worker.started.length := by
  have parts := congrArg (List.map Prod.snd) serves.parts
  rw [map_snd_numbered, List.map_append] at parts
  rw [← parts, serves.started, List.length_map, ← List.length_map Prod.snd, List.drop_left]

theorem distinct (serves : worker.Serves jobs done) {number : Nat}
    (hasEnded : number ∈ done.map Prod.fst) : worker.running.map Prod.fst ≠ some number := by
  intro runs
  have nodup := serves.nodup_order.sublist (List.sublist_append_left _ _)
  rw [serves.started, List.map_append, List.nodup_append] at nodup
  obtain ⟨entry, isRunning, isNumber⟩ := Option.map_eq_some_iff.mp runs
  exact nodup.2.2 number hasEnded number (by simp [isRunning, isNumber]) rfl

/-- A job has an outcome when it was started and does not run any more. -/
theorem outcomes_iff (serves : worker.Serves jobs done) {number : Nat}
    {outcome : Except String α} :
    worker.outcomes[number]? = some outcome ↔
      ∃ job, jobs[number]? = some job ∧ number ∈ worker.started ∧
        worker.running.map Prod.fst ≠ some number ∧ job.run true = outcome := by
  rw [serves.outcomes, serves.started, List.map_append, List.mem_append]
  constructor
  · rintro ⟨job, mem, isOutcome⟩
    have hasEnded : number ∈ done.map Prod.fst := List.mem_map_of_mem mem
    have isJob : jobs[number]? = some job :=
      serves.isJob (List.mem_append_left _ (List.mem_append_left _ mem))
    exact ⟨job, isJob, .inl hasEnded, serves.distinct hasEnded, isOutcome⟩
  · rintro ⟨job, isJob, hasEnded | runs, rests, isOutcome⟩
    · obtain ⟨⟨_, candidate⟩, mem, rfl⟩ := List.mem_map.mp hasEnded
      have isCandidate := serves.isJob (List.mem_append_left _ (List.mem_append_left _ mem))
      obtain rfl := Option.some.inj (isJob.symm.trans isCandidate)
      exact ⟨job, mem, isOutcome⟩
    · obtain ⟨entry, isRunning, isNumber⟩ := List.mem_map.mp runs
      exact absurd (by simp [Option.mem_toList.mp isRunning, isNumber]) rests

theorem outcomes_eq_none_iff (serves : worker.Serves jobs done) {number : Nat} :
    worker.outcomes[number]? = none ↔
      number ∉ worker.started ∨ worker.running.map Prod.fst = some number := by
  constructor
  · intro hasNone
    by_contra! ended
    have isNumber : number < jobs.length := by
      rw [← List.mem_range, ← serves.order_eq]
      exact List.mem_append_left _ ended.1
    have hasOutcome := serves.outcomes_iff.mpr
      ⟨jobs[number], List.getElem?_eq_getElem isNumber, ended.1, ended.2, rfl⟩
    cases hasNone.symm.trans hasOutcome
  · intro notEnded
    rw [Option.eq_none_iff_forall_ne_some]
    intro outcome hasOutcome
    obtain ⟨_, _, wasStarted, rests, _⟩ := serves.outcomes_iff.mp hasOutcome
    exact notEnded.elim (absurd wasStarted) rests

/-- The only job without an outcome among those started is the one that runs. -/
theorem unfinished_eq (serves : worker.Serves jobs done) :
    worker.unfinished = worker.running.toList.map Prod.fst := by
  rw [unfinished, serves.started, List.map_append, List.filter_append]
  have ofDone : (done.map Prod.fst).filter (worker.outcomes[·]?.isNone) = [] := by
    rw [List.filter_eq_nil_iff]
    intro number hasEnded
    rw [Option.isNone_iff_eq_none, serves.outcomes_eq_none_iff]
    rintro (notStarted | runs)
    · apply notStarted
      rw [serves.started, List.map_append]
      exact List.mem_append_left _ hasEnded
    · exact serves.distinct hasEnded runs
  have ofRunning : (worker.running.toList.map Prod.fst).filter (worker.outcomes[·]?.isNone) =
      worker.running.toList.map Prod.fst := by
    rw [List.filter_eq_self]
    intro number runs
    obtain ⟨entry, isRunning, isNumber⟩ := List.mem_map.mp runs
    rw [Option.isNone_iff_eq_none, serves.outcomes_eq_none_iff]
    exact .inr (by simp [Option.mem_toList.mp isRunning, isNumber])
  rw [ofDone, ofRunning, List.nil_append]

/-- The jobs that wait are those submitted and not started. -/
theorem pending_eq (serves : worker.Serves jobs done) :
    worker.pending = ((List.range jobs.length).filter (· ∉ worker.started)).length := by
  have nodup := serves.nodup_order
  rw [order, List.nodup_append] at nodup
  have ofStarted : worker.started.filter (· ∉ worker.started) = [] := by
    simp [List.filter_eq_nil_iff]
  have ofQueue : (worker.queue.map Prod.fst).filter (· ∉ worker.started) =
      worker.queue.map Prod.fst := by
    rw [List.filter_eq_self]
    intro number waits
    simpa using fun wasStarted => nodup.2.2 number wasStarted number waits rfl
  rw [← serves.order_eq, order, List.filter_append, ofStarted, ofQueue, List.nil_append,
    List.length_map, pending]

theorem received_iff (serves : worker.Serves jobs done) {number : Nat} {canceled : Bool}
    {outcome : Except String α} :
    worker.look number canceled = .received outcome ↔
      ∃ job, jobs[number]? = some job ∧ number ∈ worker.started ∧
        worker.running.map Prod.fst ≠ some number ∧ job.run true = outcome :=
  look_eq_received_iff.trans serves.outcomes_iff

/-- A worker that has nothing to do has run all jobs and kept how they ended. -/
theorem allRun (serves : worker.Serves jobs done) (idle : worker.running = none)
    (isEmpty : worker.queue = []) :
    worker.started = List.range jobs.length ∧
      ∀ (number : Nat) (job : Job α), jobs[number]? = some job →
        worker.outcomes[number]? = some (job.run true) := by
  have allStarted : worker.started = List.range jobs.length := by
    rw [← serves.order_eq, order, isEmpty, List.map_nil, List.append_nil]
  refine ⟨allStarted, fun number job isJob => serves.outcomes_iff.mpr ⟨job, isJob, ?_, ?_, rfl⟩⟩
  · rw [allStarted, List.mem_range]
    exact (List.getElem?_eq_some_iff.mp isJob).1
  · simp [idle]

/-- A worker that has ended has run every job once. -/
theorem ranOnce (serves : worker.Serves jobs done) (hasEnded : worker.ended = true) {number : Nat}
    {job : Job α} (isJob : jobs[number]? = some job) :
    worker.started.count number = 1 ∧
      ∀ canceled, worker.look number canceled = .received (job.run true) := by
  obtain ⟨idle, isEmpty⟩ := serves.atRest hasEnded
  obtain ⟨allStarted, allKept⟩ := serves.allRun idle isEmpty
  refine ⟨?_, fun _ => look_eq_received_iff.mpr (allKept number job isJob)⟩
  rw [allStarted]
  exact List.count_eq_one_of_mem List.nodup_range
    (List.mem_range.mpr (List.getElem?_eq_some_iff.mp isJob).1)

end Serves

/-- The worker gets to `last` by steps of its own. -/
def Reaches (worker last : Worker α) : Prop :=
  ∃ own : List (WorkerStep α), own.all WorkerStep.isOwn = true ∧ worker.run? own = some last

section Draining

variable {worker next last : Worker α}

theorem Reaches.refl (worker : Worker α) : worker.Reaches worker :=
  ⟨[], rfl, rfl⟩

theorem Reaches.cons (step : WorkerStep α) (isOwn : step.isOwn = true)
    (isStep : worker.step? step = some next) (reaches : next.Reaches last) :
    worker.Reaches last := by
  obtain ⟨own, allOwn, isRun⟩ := reaches
  refine ⟨step :: own, by simp [isOwn, allOwn], ?_⟩
  rw [run?, List.foldlM_cons, isStep]
  exact isRun

theorem Reaches.concat (reaches : worker.Reaches next) (step : WorkerStep α)
    (isOwn : step.isOwn = true) (isStep : next.step? step = some last) :
    worker.Reaches last := by
  obtain ⟨own, allOwn, isRun⟩ := reaches
  refine ⟨own ++ [step], by simp [isOwn, allOwn], ?_⟩
  rw [run?, List.foldlM_append, ← run?, isRun]
  simpa using isStep

theorem submittedJobs_eq_nil {own : List (WorkerStep α)}
    (allOwn : own.all WorkerStep.isOwn = true) : submittedJobs own = [] := by
  rw [submittedJobs, List.filterMap_eq_nil_iff]
  intro step mem
  have isOwn := List.all_eq_true.mp allOwn step mem
  cases step with
  | start | finish | stop => rfl
  | submit | abandonWait | close => cases isOwn

/-- Running the queue is a run of the worker, at whose end nothing is left to do. -/
theorem reaches_runQueued (worker : Worker α) {queue : List (Nat × Job α)}
    (idle : worker.running = none) (isQueue : worker.queue = queue) :
    worker.Reaches (worker.runQueued queue) ∧ (worker.runQueued queue).running = none ∧
      (worker.runQueued queue).queue = [] ∧
        (worker.runQueued queue).closing = worker.closing := by
  induction queue generalizing worker with
  | nil => exact ⟨.refl worker, idle, isQueue, rfl⟩
  | cons entry queue ih =>
      obtain ⟨number, job⟩ := entry
      have started : worker.start? = some { worker with
          queue
          running := some (number, job)
          started := worker.started ++ [number] } := by
        simp [start?, idle, isQueue]
      rw [runQueued, started]
      obtain ⟨reaches, rest⟩ := ih { worker with
        queue
        started := worker.started ++ [number]
        outcomes := worker.outcomes.insert number (job.run true)
        running := none } rfl rfl
      exact ⟨.cons .start rfl started (.cons .finish rfl rfl reaches), rest⟩

theorem reaches_drain (worker : Worker α) :
    worker.Reaches worker.drain ∧ worker.drain.running = none ∧ worker.drain.queue = [] ∧
      worker.drain.closing = worker.closing := by
  unfold drain
  cases isRunning : worker.running with
  | none =>
      have notFinished : worker.finish? = none := by simp [finish?, isRunning]
      rw [notFinished]
      exact reaches_runQueued worker isRunning rfl
  | some entry =>
      have finished : worker.finish? = some { worker with
          running := none
          outcomes := worker.outcomes.insert entry.1 (entry.2.run true) } := by
        simp [finish?, isRunning]
      rw [finished]
      obtain ⟨reaches, rest⟩ := reaches_runQueued { worker with
        running := none
        outcomes := worker.outcomes.insert entry.1 (entry.2.run true) } rfl rfl
      exact ⟨.cons .finish rfl finished reaches, rest⟩

theorem Serves.reaches {jobs : List (Job α)} {done : List (Nat × Job α)}
    (serves : worker.Serves jobs done) (reaches : worker.Reaches last) :
    ∃ done, last.Serves jobs done := by
  obtain ⟨own, allOwn, isRun⟩ := reaches
  simpa only [submittedJobs_eq_nil allOwn, List.append_nil] using serves.run isRun

/-- A worker that was asked to end gets there by itself, after the jobs that are left. -/
theorem reaches_ended (closing : worker.closing = true) :
    worker.Reaches { worker.drain with ended := true } := by
  obtain ⟨reaches, idle, isEmpty, sameClosing⟩ := reaches_drain worker
  have isDone : worker.drain.isDone = true :=
    (isDone_iff _).mpr ⟨sameClosing.trans closing, idle, isEmpty⟩
  exact reaches.concat .stop rfl (if_pos isDone)

end Draining

/-- A worker and the jobs that were submitted to it. -/
structure Orderly (worker : Worker α) (jobs : List (Job α)) : Prop where
  /-- The jobs started and those queued are the jobs submitted, in the order of submission. -/
  order : worker.order = List.range jobs.length
  queued : worker.queue.map Prod.snd = jobs.drop worker.started.length
  running : ∀ number job, worker.running = some (number, job) → jobs[number]? = some job
  /-- At most one job was started and has not ended, the one that runs. -/
  unfinished : worker.unfinished = worker.running.toList.map Prod.fst
  atMostOne : worker.unfinished.length ≤ 1
  pending : worker.pending = ((List.range jobs.length).filter (· ∉ worker.started)).length
  /-- Who waits for a job receives how this job ended, once it has. -/
  received : ∀ number canceled outcome, worker.look number canceled = .received outcome ↔
    ∃ job, jobs[number]? = some job ∧ number ∈ worker.started ∧
      worker.running.map Prod.fst ≠ some number ∧ job.run true = outcome
  givenUp : ∀ number canceled, worker.look number canceled = .givenUp ↔
    canceled = true ∧
      (number ∉ worker.started ∨ worker.running.map Prod.fst = some number)
  /-- A worker that has ended has run every job once. -/
  ended : worker.ended = true → ∀ number job, jobs[number]? = some job →
    worker.started.count number = 1 ∧
      ∀ canceled, worker.look number canceled = .received (job.run true)
  /-- A worker that was asked to end gets there by itself, after the jobs that are left. -/
  ends : worker.closing = true → worker.Reaches { worker.drain with ended := true }

/-- Whatever is submitted, started, ended, given up and asked for in whatever order, a worker runs
its jobs one at a time in the order of submission, each one once, and gives everybody who waits for
a job how this job ended. -/
theorem runsInOrder {stackSize : Nat} {worker next : Worker α} {steps : List (WorkerStep α)}
    (created : create stackSize = .ok worker) (isRun : worker.run? steps = some next) :
    next.Orderly (submittedJobs steps) := by
  obtain ⟨done, serves⟩ := (Serves.create created).run isRun
  rw [List.nil_append] at serves
  exact {
    order := serves.order_eq
    queued := serves.queued
    running number job isRunning := serves.isJob (by simp [isRunning])
    unfinished := serves.unfinished_eq
    atMostOne := by
      rw [serves.unfinished_eq, List.length_map]
      exact Option.length_toList_le
    pending := serves.pending_eq
    received number canceled outcome := serves.received_iff
    givenUp number canceled := by
      rw [look_eq_givenUp_iff, serves.outcomes_eq_none_iff]
    ended hasEnded number job isJob := serves.ranOnce hasEnded isJob
    ends := reaches_ended }

/-- A job fails while another one waits and after the wait for it was given up, and the second job
submits a third one when the worker was already asked to end. -/
theorem runsInOrder_sample :
    let failing : Job Nat := ⟨fun _ => .error "no proof"⟩
    let counting : Job Nat := ⟨fun onWorker => .ok (if onWorker then 1 else 0)⟩
    let steps : List (WorkerStep Nat) :=
      [.submit failing, .start, .submit counting, .abandonWait 0, .close, .finish, .start,
        .submit failing, .finish, .start, .finish, .stop]
    let outcomes : Table Nat (Except String Nat) := ∅
    let first : Worker Nat := { stackSize := 16384 }
    let last : Worker Nat := {
      stackSize := 16384
      submitted := 3
      started := [0, 1, 2]
      outcomes := outcomes.insert 0 (.error "no proof") |>.insert 1 (.ok 1)
        |>.insert 2 (.error "no proof")
      closing := true
      ended := true }
    create 16384 = .ok first ∧ first.run? steps = some last ∧
      last.Orderly [failing, counting, failing] := by
  intro failing counting steps outcomes first last
  have created : create 16384 = .ok first := rfl
  have isRun : first.run? steps = some last := rfl
  exact ⟨created, isRun, runsInOrder created isRun⟩

section Held

theorem foldl_submit (jobs : List (Job α)) (worker : Worker α) :
    ∃ submitted queue, queue.length = worker.queue.length + jobs.length ∧
      jobs.foldl submit worker = { worker with submitted, queue } := by
  induction jobs generalizing worker with
  | nil => exact ⟨worker.submitted, worker.queue, rfl, rfl⟩
  | cons job jobs ih =>
      obtain ⟨submitted, queue, isLength, isLoaded⟩ := ih (worker.submit job)
      refine ⟨submitted, queue, ?_, isLoaded⟩
      rw [isLength, submit, List.length_append, List.length_singleton, List.length_cons]
      omega

theorem Serves.foldl_submit {worker : Worker α} {jobs : List (Job α)} {done : List (Nat × Job α)}
    (serves : worker.Serves jobs done) (going : worker.ended = false) (more : List (Job α)) :
    (more.foldl Worker.submit worker).Serves (jobs ++ more) done := by
  induction more generalizing worker jobs with
  | nil => rwa [List.append_nil]
  | cons job more ih =>
      rw [← List.singleton_append, ← List.append_assoc]
      exact ih (serves.submit going job) going

theorem filterMap_getElem?_range {β : Type} (entries : List β) :
    (List.range entries.length).filterMap (entries[·]?) = entries := by
  induction entries with
  | nil => rfl
  | cons entry entries ih =>
      rw [List.length_cons, List.range_succ_eq_map, List.filterMap_cons, List.filterMap_map]
      exact congrArg (entry :: ·) ih

/-- While a worker is held up the jobs wait, and whoever gives up has nothing; then they run in the
order of submission, and it is kept how each one ended. -/
theorem runHeld_eq {stackSize : Nat} {worker : Worker α} (created : create stackSize = .ok worker)
    (blocker : Job α) (jobs : List (Job α)) (impatient : List Nat) :
    worker.runHeld blocker jobs impatient = {
      pending := jobs.length
      waits := impatient.map (·, false)
      outcomes := jobs.map (·.run true)
      order := List.range jobs.length } := by
  obtain rfl := eq_of_create created
  let held : Worker α :=
    { stackSize, submitted := 1, running := some (0, blocker), started := [0] }
  have serves : held.Serves [blocker] [] := ((Serves.create created).submit rfl blocker).start rfl
  obtain ⟨submitted, queue, isLength, isLoaded⟩ := foldl_submit jobs held
  obtain ⟨reaches, idle, isEmpty, -⟩ := reaches_drain (jobs.foldl submit held)
  obtain ⟨done, servesDrained⟩ := (serves.foldl_submit rfl jobs).reaches reaches
  obtain ⟨allStarted, allKept⟩ := servesDrained.allRun idle isEmpty
  have pending : (jobs.foldl submit held).pending = jobs.length := by
    rw [Worker.pending, isLoaded, isLength]
    exact Nat.zero_add jobs.length
  have gaveUp (number : Nat) : (jobs.foldl submit held).look number true = .givenUp := by
    rw [look_eq_givenUp_iff, isLoaded]
    exact ⟨rfl, Std.ExtTreeMap.getElem?_empty⟩
  have kept : ∀ number ∈ List.range jobs.length,
      (jobs.foldl submit held).drain.outcomes[number + 1]? = (jobs.map (·.run true))[number]? := by
    intro number mem
    obtain ⟨job, isJob⟩ : ∃ job, jobs[number]? = some job :=
      ⟨_, List.getElem?_eq_getElem (List.mem_range.mp mem)⟩
    rw [allKept (number + 1) job isJob, List.getElem?_map, isJob, Option.map_some]
  have isHeld : (({ stackSize : Worker α }.submit blocker).start?).getD { stackSize } = held := rfl
  simp only [runHeld, isHeld, pending, gaveUp, HeldRun.mk.injEq, true_and]
  constructor
  · rw [List.filterMap_congr kept, ← List.length_map (·.run true), filterMap_getElem?_range]
  · rw [allStarted, List.singleton_append, List.length_cons, List.range_succ_eq_map,
      List.filterMap_cons, List.filterMap_map]
    exact List.filterMap_some

end Held

end Worker

end Proofline
