import Proofline.Proofs.Lineage
import Proofline.Proofs.ScriptedVerifier

/-!
# Resuming verification

A verification that was canceled is taken up where it stopped. With a verifier that
always comes to the same verdicts it does not matter how often this happens: what is
recorded at any time belongs to an initial segment of the units, and a call that is
not canceled records the rest.
-/

namespace Proofline

open Declaration (distinct)

variable {σ : Type}

/-- What is recorded of units under fixed verdicts. -/
def recordedVerdicts (verdict : Declaration → Except String Outcome)
    (units : List Declaration) : List (Declaration × Outcome) :=
  units.map fun unit => (unit, Outcome.recorded (verdict unit))

/-- A version with the verdicts about some of its units recorded. -/
def Resolved.verifiedUpTo (base : Resolved) (verdict : Declaration → Except String Outcome)
    (units : List Declaration) : Verified :=
  (Verified.start base).record (recordedVerdicts verdict units)

namespace StepOf

/-- Whether a step verifies the latest version of a manager with a verifier that comes to
certain verdicts. -/
def Verifies (number : Nat) (verdict : Declaration → Except String Outcome)
    (call : StepOf σ) : Prop :=
  call.request = .verify number ∧ call.plan.IsFixed verdict

/-- Whether a step that verifies is canceled neither from the start nor by the verifier. -/
def NeverCanceled (call : StepOf σ) : Prop :=
  call.canceled = false ∧ ∀ unit, (call.plan.verify unit).cancels = false

end StepOf

variable {verdict : Declaration → Except String Outcome} {base : Resolved}

theorem map_fst_recordedVerdicts (units : List Declaration) :
    (recordedVerdicts verdict units).map Prod.fst = units := by
  simp [recordedVerdicts, Function.comp_def]

theorem eq_recordedVerdicts {recorded : List (Declaration × Outcome)}
    (yields : ∀ entry ∈ recorded, entry.2 = Outcome.recorded (verdict entry.1)) :
    recorded = recordedVerdicts verdict (recorded.map Prod.fst) := by
  calc
    recorded = recorded.map id := (List.map_id recorded).symm
    _ = recorded.map ((fun unit => (unit, Outcome.recorded (verdict unit))) ∘ Prod.fst) :=
      List.map_congr_left fun entry mem => Prod.ext rfl (yields entry mem)
    _ = recordedVerdicts verdict (recorded.map Prod.fst) := (List.map_map ..).symm

theorem Resolved.verifiedUpTo_append (first second : List Declaration) :
    (base.verifiedUpTo verdict first).record (recordedVerdicts verdict second) =
      base.verifiedUpTo verdict (first ++ second) := by
  rw [verifiedUpTo, verifiedUpTo, ← Verified.record_append, recordedVerdicts, recordedVerdicts,
    recordedVerdicts, List.map_append]

theorem Resolved.version_verifiedUpTo (units : List Declaration) :
    (base.verifiedUpTo verdict units).compilation.version = base.compilation.version :=
  congrArg Compilation.version (Verified.compilation_record _ _)

theorem Resolved.prefix_pending_start (verdict : Declaration → Except String Outcome)
    {units : List Declaration} (inOrder : units <+: distinct base.units) :
    (recordedVerdicts verdict units).map Prod.fst <+:
      (Verified.start base).pending base.units := by
  rwa [map_fst_recordedVerdicts, Verified.pending_start]

/-- The units up to which a version is verified come before those that are pending. -/
theorem Resolved.append_pending (verdict : Declaration → Except String Outcome)
    {units : List Declaration} (inOrder : units <+: distinct base.units) :
    units ++ (base.verifiedUpTo verdict units).pending base.units = distinct base.units := by
  have split := Verified.pending_record (prefix_pending_start verdict inOrder)
  rwa [map_fst_recordedVerdicts, Verified.pending_start] at split

/-- A complete version is verified up to its last unit. -/
theorem Resolved.eq_distinct_of_complete {units : List Declaration}
    (inOrder : units <+: distinct base.units)
    (complete : (base.verifiedUpTo verdict units).complete = true) :
    units = distinct base.units := by
  have counted := Verified.completed_record (prefix_pending_start verdict inOrder)
  have length : (recordedVerdicts verdict units).length = units.length := by
    simp [recordedVerdicts]
  have atMost := Declaration.length_distinct_le base.units
  rw [verifiedUpTo, Verified.complete, decide_eq_true_eq, Verified.resolved_record, counted,
    length] at complete
  change base.units.length ≤ 0 + units.length at complete
  exact inOrder.eq_of_length_le (by omega)

/-- Where a manager stands between calls that verify a version: it is verified up to some
unit, and not refused before the last one. -/
structure Manager.Resumes (base : Resolved) (verdict : Declaration → Except String Outcome)
    (manager : Manager) (units : List Declaration) : Prop where
  inOrder : units <+: distinct base.units
  latest : manager.latest = .resolved base ∧ units = [] ∨
    manager.latest = .verified (base.verifiedUpTo verdict units)
  accepts : ¬manager.Refuses base.compilation.version ∨
    manager.latest = .verified (base.verifiedUpTo verdict (distinct base.units))

namespace Manager.Resumes

variable {manager : Manager} {units : List Declaration}

theorem begins (resumes : manager.Resumes base verdict units) :
    manager.latest.begun? = some (base.verifiedUpTo verdict units) := by
  rcases resumes.latest with ⟨latest, rfl⟩ | latest
  · rw [latest]
    rfl
  · rw [latest]
    rfl

/-- A call that verifies further units leaves the manager to be resumed after them. -/
theorem finish (resumes : manager.Resumes base verdict units)
    (accepts : ¬manager.Refuses base.compilation.version) {further : List Declaration}
    (inOrder : further <+: (base.verifiedUpTo verdict units).pending base.units) :
    (manager.finish (base.verifiedUpTo verdict (units ++ further))).Resumes base verdict
      (units ++ further) := by
  have extended : units ++ further <+: distinct base.units := by
    rw [← Resolved.append_pending verdict resumes.inOrder]
    exact (List.prefix_append_right_inj units).mpr inOrder
  refine ⟨extended, Or.inr (Manager.latest_finish _ _), ?_⟩
  rw [Manager.latest_finish]
  by_cases complete : (base.verifiedUpTo verdict (units ++ further)).complete = true
  · exact Or.inr (by rw [base.eq_distinct_of_complete extended complete])
  · left
    rw [Manager.finish, if_neg complete, Manager.not_refuses_iff]
    exact ⟨(Manager.not_refuses_iff.mp accepts).1, by simp⟩

end Manager.Resumes

namespace Session

/-- Where a session stands between calls that verify a version, which a manager has begun
in a certain state: either it refused the version and is as it was, or it can be resumed. -/
structure Resumes (base : Resolved) (verdict : Declaration → Except String Outcome)
    (number : Nat) (begun : Manager) (session : Session) : Prop where
  wellNumbered : session.WellNumbered
  quiet : session.IsQuiet
  known : session.Knows number
  manager : begun.Refuses base.compilation.version ∧
      session.manager number = begun ∧ begun.latest = .resolved base ∨
    ¬begun.Refuses base.compilation.version ∧
      ∃ units, (session.manager number).Resumes base verdict units

/-- What an uninterrupted call comes to that verifies a version which a manager has begun in
a certain state. -/
def lastOf (base : Resolved) (verdict : Declaration → Except String Outcome)
    (begun : Manager) : Snapshot :=
  if begun.Refuses base.compilation.version then .resolved base
  else .verified (base.verifiedUpTo verdict (distinct base.units))

end Session

/-- A call that is not refused verifies an initial segment of the pending units, and all of
them unless it is canceled. -/
theorem SessionM.resumes_of_accepts {plan : Plan σ} (inner : σ → SessionM Answer)
    (isFixed : plan.IsFixed verdict) {number : Nat} {session : Session}
    (wellNumbered : session.WellNumbered) (quiet : session.IsQuiet)
    {units : List Declaration} (up : (session.manager number).Resumes base verdict units)
    (accepts : ¬(session.manager number).Refuses base.compilation.version) :
    ∃ after, (verifyEverything (plan.services inner) number).run session = (.ok (), after) ∧
      (∃ further, (after.manager number).Resumes base verdict (units ++ further)) ∧
      after.IsQuiet ∧ (session.triggers = [] → after.triggers = []) ∧
      ((∀ unit, (plan.verify unit).cancels = false) → session.canceled = false →
        session.triggers = [] → (after.manager number).latest =
          .verified (base.verifiedUpTo verdict (distinct base.units))) := by
  have alone : (plan.services inner).VerifiesAlone := Plan.verifiesAlone_of_isFixed isFixed
  have version : (base.verifiedUpTo verdict units).compilation.version =
      base.compilation.version := base.version_verifiedUpTo units
  rcases ran : (verifyEverything (plan.services inner) number).run session with ⟨outcome, after⟩
  rcases concludes_verifyEverything (Plan.verifies_of_isFixed number isFixed) wellNumbered
      up.begins (version ▸ accepts) ran with
    disturbed | ⟨recorded, rfl, finished, progress⟩
  · exact absurd disturbed (Session.Disturbed.not_of_alone alone quiet)
  have calm := progress.proceeds.calm alone
  have inOrder := progress.inOrder
  have all := progress.all
  rw [Resolved.verifiedUpTo, Verified.resolved_record] at inOrder all
  rw [eq_recordedVerdicts progress.yields, Resolved.verifiedUpTo_append] at finished
  refine ⟨after, rfl, ⟨_, finished ▸ up.finish accepts inOrder⟩, calm.quiet quiet, calm.idle, ?_⟩
  intro never notCanceled idle
  have stillNotCanceled : after.canceled = false := by
    rw [calm.uncanceled (Plan.neverCancels_of_isFixed isFixed never) idle, notCanceled]
  rw [finished, Manager.latest_finish]
  rcases all with all | canceled
  · rw [all]
    exact congrArg (fun upTo => Snapshot.verified (base.verifiedUpTo verdict upTo))
      (Resolved.append_pending verdict up.inOrder)
  · rw [stillNotCanceled] at canceled
    contradiction

/-- A call that verifies a version ends, and can be resumed after. -/
theorem SessionM.resumes_verifyEverything {plan : Plan σ} (inner : σ → SessionM Answer)
    (isFixed : plan.IsFixed verdict) {number : Nat} {begun : Manager} {session : Session}
    (resumes : session.Resumes base verdict number begun) :
    ∃ after, (verifyEverything (plan.services inner) number).run session = (.ok (), after) ∧
      after.Resumes base verdict number begun ∧
      (session.triggers = [] → after.triggers = []) ∧
      ((∀ unit, (plan.verify unit).cancels = false) → session.canceled = false →
        session.triggers = [] →
        (after.manager number).latest = Session.lastOf base verdict begun) := by
  rcases resumes.manager with ⟨refuses, same, isResolved⟩ | ⟨begunAccepts, units, up⟩
  · have begins : (session.manager number).latest.begun? = some (.start base) := by
      rw [same, isResolved]
      rfl
    refine ⟨session, run_verifyEverything_of_begun begins (same ▸ refuses), resumes, id, ?_⟩
    intro _ _ _
    rw [same, isResolved, Session.lastOf, if_pos refuses]
  rw [Session.lastOf, if_neg begunAccepts]
  by_cases refuses : (session.manager number).Refuses base.compilation.version
  · rw [← base.version_verifiedUpTo units] at refuses
    refine ⟨session, run_verifyEverything_of_begun up.begins refuses, resumes, id, ?_⟩
    intro _ _ _
    rw [base.version_verifiedUpTo units] at refuses
    exact up.accepts.resolve_left (not_not_intro refuses)
  · obtain ⟨after, ran, ⟨further, later⟩, quiet, idle, last⟩ :=
      resumes_of_accepts inner isFixed resumes.wellNumbered resumes.quiet up refuses
    have respects (unit : Declaration) :
        Respects (Session.Behaves none) ((plan.services inner).verify unit) :=
      Plan.respects_verify_of_isFixed (isDiscipline_behaves none) isFixed unit
    have evolves := (respects_verifyEverything respects number session resumes.wellNumbered
      trivial).1.evolves
    rw [ran] at evolves
    exact ⟨after, ran, ⟨evolves.wellNumbered resumes.wellNumbered, quiet,
      evolves.mem_managers resumes.known, Or.inr ⟨begunAccepts, _, later⟩⟩, idle, last⟩

/-- Only what surrounds the managers differs. -/
theorem Session.Resumes.of_surroundings {number : Nat} {begun : Manager}
    {before after : Session} (resumes : before.Resumes base verdict number begun)
    (managers : after.managers = before.managers) (catalog : after.catalog = before.catalog)
    (triggers : after.triggers = before.triggers) :
    after.Resumes base verdict number begun where
  wellNumbered :=
    { mem_managers := managers ▸ resumes.wellNumbered.mem_managers
      mem_of_catalog := managers ▸ catalog ▸ resumes.wellNumbered.mem_of_catalog }
  quiet trigger mem := resumes.quiet trigger (triggers ▸ mem)
  known := by
    rw [Session.Knows, managers]
    exact resumes.known
  manager := by
    rw [Session.manager, managers]
    exact resumes.manager

/-- A step that verifies a version returns, and can be resumed after. -/
theorem StepOf.resumes_perform (inner : σ → SessionM Answer) {call : StepOf σ} {number : Nat}
    (verifies : call.Verifies number verdict) {begun : Manager} {session : Session}
    (resumes : session.Resumes base verdict number begun) :
    ∃ answer after, (call.perform inner).run session = (.ok answer, after) ∧
      answer.outcome = .ok .nothing ∧
      after.Resumes base verdict number begun ∧
      (session.triggers = [] → after.triggers = []) ∧
      (call.NeverCanceled → session.triggers = [] →
        (after.manager number).latest = Session.lastOf base verdict begun) := by
  have entered : Session.Resumes base verdict number begun
      { session with depth := session.depth + 1, canceled := call.canceled } :=
    resumes.of_surroundings rfl rfl rfl
  rcases SessionM.resumes_verifyEverything inner verifies.2 entered with
    ⟨after, ran, later, idle, last⟩
  have carried : (call.request.carryOut (call.plan.services inner)).run
      { session with depth := session.depth + 1, canceled := call.canceled } =
        (.ok .nothing, after) := by
    rw [verifies.1, Request.carryOut, SessionM.withManager, SessionM.run_bind, SessionM.run_get]
    have known : number ∈ session.managers := resumes.known
    simp only
    rw [if_pos known, SessionM.run_bind, ran]
    rfl
  simp only [StepOf.perform, SessionM.run_bind, SessionM.run_get, SessionM.run_set,
    SessionM.run_attempt, carried]
  refine ⟨_, _, rfl, rfl, later.of_surroundings rfl rfl rfl, idle, ?_⟩
  rintro ⟨notCanceled, never⟩ untold
  exact last never notCanceled untold

/-- Steps that verify a version all return, and can be resumed after. -/
theorem StepOf.resumes_mapM (inner : σ → SessionM Answer) {number : Nat} {begun : Manager}
    (calls : List (StepOf σ)) (verify : ∀ call ∈ calls, call.Verifies number verdict)
    {session : Session} (resumes : session.Resumes base verdict number begun) :
    ∃ answers after, (calls.mapM (StepOf.perform inner)).run session = (.ok answers, after) ∧
      (∀ answer ∈ answers, answer.outcome = .ok .nothing) ∧
      after.Resumes base verdict number begun ∧
      (session.triggers = [] → after.triggers = []) := by
  induction calls generalizing session with
  | nil => exact ⟨[], session, rfl, by simp, resumes, id⟩
  | cons call rest ih =>
      rcases StepOf.resumes_perform inner (verify call (by simp)) resumes with
        ⟨answer, middle, performed, returned, resumesMiddle, idle, _⟩
      rcases ih (fun other mem => verify other (by simp [mem])) resumesMiddle with
        ⟨answers, after, performedRest, returnedRest, resumesAfter, idleRest⟩
      refine ⟨answer :: answers, after, ?_, ?_, resumesAfter, fun untold => idleRest (idle untold)⟩
      · rw [List.mapM_cons, SessionM.run_bind, performed]
        simp only
        rw [SessionM.run_bind, performedRest]
        rfl
      · intro other mem
        rcases List.mem_cons.mp mem with rfl | mem
        · exact returned
        · exact returnedRest other mem

/-- Canceling and resuming the verification of a resolved version does not change its
result. However often it is canceled, the latest snapshot is the resolved one or has the
verdicts about an initial segment of the distinct units recorded; and a call that is not
canceled comes to the snapshot that a single such call comes to: with the verdicts about all
distinct units, unless the manager refuses the version from the start. -/
theorem Session.IsReachable.verification_resumes {session : Session}
    (reachable : session.IsReachable) {number : Nat} {base : Resolved}
    (latest : (session.manager number).latest = .resolved base) (quiet : session.IsQuiet)
    (verdict : Declaration → Except String Outcome) (inner : σ → SessionM Answer)
    (calls : List (StepOf σ)) (verify : ∀ call ∈ calls, call.Verifies number verdict) :
    ∃ answers after, (calls.mapM (StepOf.perform inner)).run session = (.ok answers, after) ∧
      (∀ answer ∈ answers, answer.outcome = .ok .nothing) ∧
      ((after.manager number).latest = .resolved base ∨
        ∃ units, units <+: distinct base.units ∧
          (after.manager number).latest = .verified (base.verifiedUpTo verdict units)) ∧
      (session.triggers = [] → ∀ last single : StepOf σ,
        last.Verifies number verdict → last.NeverCanceled →
        single.Verifies number verdict → single.NeverCanceled →
        (((last.perform inner).run after).2.manager number).latest =
          (((single.perform inner).run session).2.manager number).latest ∧
        (((single.perform inner).run session).2.manager number).latest =
          Session.lastOf base verdict (session.manager number)) := by
  have known : session.Knows number := by
    refine Session.knows_of_stage_ne ?_
    rw [latest]
    simp [Snapshot.stage]
  have resumes : session.Resumes base verdict number (session.manager number) := by
    refine ⟨reachable.wellNumbered, quiet, known, ?_⟩
    by_cases refuses : (session.manager number).Refuses base.compilation.version
    · exact Or.inl ⟨refuses, rfl, latest⟩
    · exact Or.inr ⟨refuses, [], List.nil_prefix, Or.inl ⟨latest, rfl⟩, Or.inl refuses⟩
  rcases StepOf.resumes_mapM inner calls verify resumes with
    ⟨answers, after, performed, returned, resumesAfter, idle⟩
  refine ⟨answers, after, performed, returned, ?_, ?_⟩
  · rcases resumesAfter.manager with ⟨_, same, isResolved⟩ | ⟨_, units, up⟩
    · exact Or.inl (same ▸ isResolved)
    · rcases up.latest with ⟨isResolved, _⟩ | isVerified
      · exact Or.inl isResolved
      · exact Or.inr ⟨units, up.inOrder, isVerified⟩
  · intro untold last single lastVerifies lastNever singleVerifies singleNever
    rcases StepOf.resumes_perform inner lastVerifies resumesAfter with
      ⟨_, lastAfter, lastRan, _, _, _, lastLatest⟩
    rcases StepOf.resumes_perform inner singleVerifies resumes with
      ⟨_, singleAfter, singleRan, _, _, _, singleLatest⟩
    rw [lastRan, singleRan]
    have comesTo := singleLatest singleNever untold
    exact ⟨(lastLatest lastNever (idle untold)).trans comesTo.symm, comesTo⟩

/-- A step that verifies the sample project, canceled from the start or by the verifier at the
second method. -/
def StepOf.sampleVerify (canceled cancels : Bool) : StepOf Empty where
  request := .verify 0
  canceled
  plan :=
    { Plan.succeeding none with
      verify := fun unit => { cancels := cancels && unit.name = "g", reply := {} } }

/-- A version whose verification is canceled from the start, and then at the second of its two
units, is verified as if it had not been: the last call takes it up with one result. -/
theorem verification_resumes_sample :
    ∃ answers after verified,
      ([StepOf.sampleVerify true false, .sampleVerify false true].mapM
        (StepOf.perform fun inner => nomatch inner)).run
          Session.pairSample = (.ok answers, after) ∧
      (after.manager 0).latest = .verified verified ∧
      verified.completed = 1 ∧ (distinct verified.resolved.units).length = 2 ∧
      ((((StepOf.sampleVerify false false).perform fun inner => nomatch inner).run
          after).2.manager 0).latest =
        ((((StepOf.sampleVerify false false).perform fun inner => nomatch inner).run
          Session.pairSample).2.manager 0).latest := by
  have resolved : (Session.pairSample.manager 0).latest.stage = .resolved := by
    decide +kernel
  have untold : Session.pairSample.triggers = [] := by
    decide +kernel
  have stopped : ((([StepOf.sampleVerify true false, .sampleVerify false true].mapM
        (StepOf.perform fun inner => nomatch inner)).run
          Session.pairSample).2.manager 0).latest.verified?.map
            (fun verified => (verified.completed, (distinct verified.resolved.units).length)) =
      some (1, 2) := by
    decide +kernel
  have reachable := Session.isReachable_pairSample
  have verifies (canceled cancels : Bool) :
      (StepOf.sampleVerify canceled cancels).Verifies 0 fun _ => .ok {} :=
    ⟨rfl, fun _ => ⟨rfl, rfl⟩⟩
  generalize Session.pairSample = session at *
  cases latest : (session.manager 0).latest with
  | unloaded | parsed | verified => simp [latest, Snapshot.stage] at resolved
  | resolved base =>
      rcases reachable.verification_resumes latest (by simp [Session.IsQuiet, untold])
          (fun _ => .ok {}) (fun inner => nomatch inner)
          [.sampleVerify true false, .sampleVerify false true] (by simp [verifies]) with
        ⟨answers, after, ran, _, _, same⟩
      rw [ran] at stopped
      obtain ⟨verified, isVerified, counts⟩ := Option.map_eq_some_iff.mp stopped
      rw [Prod.mk.injEq] at counts
      refine ⟨answers, after, verified, ran, Snapshot.verified?_eq_some_iff.mp isVerified,
        counts.1, counts.2, ?_⟩
      exact (same untold _ _ (verifies _ _) ⟨rfl, fun _ => rfl⟩ (verifies _ _)
        ⟨rfl, fun _ => rfl⟩).1

end Proofline
