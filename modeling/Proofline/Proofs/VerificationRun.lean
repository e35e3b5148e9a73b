import Proofline.Proofs.Disturbance
import Proofline.Proofs.PendingUnits

/-!
# Runs of verification

A run that verifies the units of a version records the results of an initial
segment of those that are pending, and of all of them unless it is canceled or
disturbed. One pending unit after the other is verified; the manager has the last
snapshot as its latest one, and settles the version if that snapshot is complete.
-/

namespace Proofline

/-- The version from which a snapshot is verified, if it can be verified. -/
def Snapshot.begun? : Snapshot → Option Verified
  | .resolved base => some (.start base)
  | .verified partly => some partly
  | _ => none

namespace Snapshot

variable {snapshot : Snapshot} {verified : Verified}

theorem rank_of_begun? (begins : snapshot.begun? = some verified) :
    Stage.resolved.rank ≤ snapshot.stage.rank := by
  cases snapshot <;> simp [begun?, stage, Stage.rank] at begins ⊢

theorem version_of_begun? (begins : snapshot.begun? = some verified) :
    verified.compilation.version = snapshot.version := by
  cases snapshot with
  | unloaded | parsed => cases begins
  | resolved base =>
      cases begins
      rfl
  | verified partly =>
      cases begins
      rfl

end Snapshot

namespace Manager

/-- The manager after it was verifying up to a snapshot. -/
def finish (manager : Manager) (last : Verified) : Manager :=
  let ended := { manager with latest := .verified last, verifying := none }
  if last.complete then ended.settle last.compilation.version (some last) else ended

@[simp]
theorem latest_finish (manager : Manager) (last : Verified) :
    (manager.finish last).latest = .verified last := by
  unfold finish
  split <;> rfl

/-- The manager with another latest snapshot. -/
def withLatest (manager : Manager) (verified : Verified) : Manager :=
  { manager with latest := .verified verified }

theorem withLatest_self {manager : Manager} {verified : Verified}
    (latest : manager.latest = .verified verified) : manager.withLatest verified = manager := by
  rw [withLatest, ← latest]

theorem isVerifyingLatest_of_latest {manager : Manager} {verified : Verified}
    (latest : manager.latest = .verified verified)
    (verifying : manager.verifying = some verified.compilation.version) :
    manager.IsVerifyingLatest := by
  rw [IsVerifyingLatest, latest]
  exact ⟨rfl, verifying⟩

end Manager

namespace SessionM

open Session (Knows Disturbed Proceeds)

variable {α β : Type} {services : Services} {number : Nat}
  {yields : Declaration → Outcome → Prop}

/-- Whether an action ends because a call of the verifier does not come back. -/
def Loses (services : Services) (action : SessionM α) (session : Session) : Prop :=
  ∃ stop after, action.run session = (.error stop, after) ∧
    (stop = .stuck ∨ stop = .misused) ∧ ¬services.VerifiesAlone

theorem Loses.disturbed {action : SessionM α} {session : Session}
    (loses : Loses services action session) {next : α → SessionM β} {outcome : Except Stop β}
    {after : Session} (ran : (action >>= next).run session = (outcome, after)) :
    Disturbed services number session outcome after := by
  obtain ⟨stop, last, stopped, isStop, cause⟩ := loses
  rw [run_bind, stopped] at ran
  cases ran
  exact .lost (isStop.imp (congrArg _) (congrArg _)) cause

/-- A call of the verifier does not come back, or its outcome is recorded. -/
theorem run_verifyUnit (services : Services) (number : Nat) (version : Int)
    (unit : Declaration) (session : Session) :
    Loses services (verifyUnit services number version unit) session ∨
    ∃ result middle events,
      (attempt (services.verify unit)).run (session.enter [.verifying number version unit]) =
        (.ok result, middle) ∧
      (verifyUnit services number version unit).run session =
        (.ok (Outcome.recorded result), middle.enter events) ∧
      (∀ event ∈ events, event.sparesManagers = true ∧
        ∀ other, event.dispatch? other = none) := by
  rw [Loses, verifyUnit, run_bind, run_record]
  simp only
  rw [run_bind]
  rcases ran : (attempt (services.verify unit)).run
    (session.enter [.verifying number version unit]) with ⟨stop | result, middle⟩
  · left
    refine ⟨stop, middle, rfl, ?_, ?_⟩
    · rw [run_attempt] at ran
      split at ran
      all_goals
        obtain ⟨isStop, _⟩ := Prod.mk.inj ran
        cases isStop
      · exact Or.inl rfl
      · exact Or.inr rfl
    · intro alone
      obtain ⟨result, after, returned, _⟩ :=
        alone unit (session.enter [.verifying number version unit])
      rw [ran] at returned
      cases returned
  · right
    cases result with
    | ok outcome =>
        exact ⟨.ok outcome, middle, [], rfl, by simp [Outcome.recorded], by simp⟩
    | error message =>
        refine ⟨.error message, middle, [.failureReported "verifier"
          (unit.name ++ ": " ++ message)], rfl, rfl, ?_⟩
        simp [Event.sparesManagers, Event.dispatch?]

/-- A call of the verifier that came back while its manager was verifying its
latest version. -/
structure Called (services : Services) (number : Nat) (yields : Declaration → Outcome → Prop)
    (unit : Declaration) (before : Session) (outcome : Outcome) (after : Session) : Prop where
  evolves : before.Evolves after
  yields : yields unit outcome
  /-- A newer version came first, or the manager is as it was. -/
  manager : (before.manager number).latest.version < (after.manager number).latest.version ∧
      ¬services.VerifiesAlone ∨
    after.manager number = before.manager number
  proceeds : Proceeds services before after

theorem run_verifyUnit_of_verifying (verifies : services.Verifies number yields)
    {session : Session} (wellNumbered : session.WellNumbered)
    (verifying : (session.manager number).IsVerifyingLatest) (version : Int)
    (unit : Declaration) :
    Loses services (verifyUnit services number version unit) session ∨
    ∃ outcome after,
      (verifyUnit services number version unit).run session = (.ok outcome, after) ∧
      Called services number yields unit session outcome after := by
  rcases run_verifyUnit services number version unit session with
    loses | ⟨result, middle, events, called, ran, silent⟩
  · exact Or.inl loses
  have known := Session.knows_of_isHeld (Or.inr verifying)
  have begun : session.Evolves (session.enter [.verifying number version unit]) :=
    .enter (by simp [Event.sparesManagers]) (by simp [Event.dispatch?])
  have steady := (Respects.attempt (verifies.steady unit) _ (begun.wellNumbered wellNumbered)
    trivial).1
  rw [called] at steady
  have ended : middle.Evolves (middle.enter events) :=
    .enter (fun event mem => (silent event mem).1) fun event mem => (silent event mem).2
  have evolves := begun.trans (steady.evolves.trans ended)
  have untouched (alone : services.VerifiesAlone) :
      middle.managers = session.managers ∧ middle.triggers = session.triggers := by
    obtain ⟨_, _, returned, same⟩ := alone unit (session.enter [.verifying number version unit])
    rw [called] at returned
    obtain rfl := (Prod.mk.inj returned).2
    exact same
  refine Or.inr ⟨_, _, ran, evolves, verifies.outcome called, ?_, ?_⟩
  · rcases Int.lt_or_eq_of_le (evolves.version_le known) with newer | same
    · left
      refine ⟨newer, fun alone => ?_⟩
      have unchanged : middle.manager number = session.manager number :=
        congrArg (fun table => table.getD number default) (untouched alone).1
      rw [Session.manager_enter, unchanged] at newer
      exact Int.lt_irrefl _ newer
    · exact Or.inr (steady.steady (Or.inr verifying) same.symm)
  · constructor
    · have kept := verifies.staysCanceled called
      exact kept
    · intro alone
      constructor
      · intro quiet trigger mem
        exact quiet trigger ((untouched alone).2 ▸ mem)
      · exact (untouched alone).2.trans
      · intro never _
        have kept := never called
        exact kept

/-- Whether an action makes a snapshot of the latest version the latest one and
returns a value, unless the publisher fails at it. -/
def Publishes (services : Services) (number : Nat) (verified : Verified) (action : SessionM α)
    (value : α) (session : Session) : Prop :=
  (∃ message after, action.run session = (.error (.failed message), after) ∧
    session.PublisherFailed number after ∧ ¬session.IsQuiet) ∨
  ∃ after, action.run session = (.ok value, after) ∧ session.Evolves after ∧
    after.manager number = (session.manager number).withLatest verified ∧
    Proceeds services session after

/-- What follows the publication of a snapshot. -/
theorem Publishes.bind {verified : Verified} {action : SessionM α} {value : α}
    {session : Session} (publishes : Publishes services number verified action value session)
    {next : α → SessionM β} {outcome : Except Stop β} {after : Session}
    (ran : (action >>= next).run session = (outcome, after)) :
    Disturbed services number session outcome after ∨
    ∃ middle, (next value).run middle = (outcome, after) ∧ session.Evolves middle ∧
      middle.manager number = (session.manager number).withLatest verified ∧
      Proceeds services session middle := by
  rw [run_bind] at ran
  rcases publishes with ⟨message, last, failed, publisherFailed, loud⟩ | ⟨middle, published, rest⟩
  · rw [failed] at ran
    cases ran
    exact Or.inl (.publisherFailed publisherFailed fun _ => loud)
  · rw [published] at ran
    exact Or.inr ⟨middle, ran, rest⟩

/-- A verified snapshot of the latest version is accepted. -/
theorem publishes_publish (services : Services) {session : Session} {next : Verified}
    (known : session.Knows number)
    (same : (Snapshot.verified next).version = (session.manager number).latest.version) :
    Publishes services number next (publish number (.verified next)) true session := by
  have current : ¬(Snapshot.verified next).Precedes (session.manager number).latest := by
    rintro (older | ⟨_, earlier⟩)
    · exact Int.ne_of_lt older same
    · cases latest : (session.manager number).latest <;>
        simp [latest, Snapshot.stage, Stage.rank] at earlier
  obtain ⟨publications, announces, ends, acted, quiet⟩ := run_publish_of_not_precedes current
  rcases ran : (publish number (.verified next)).run session with ⟨outcome, after⟩
  rw [ran] at ends acted
  simp only at ends acted
  cases failing : publications.findSome? Publication.failure with
  | some message =>
      obtain ⟨publication, mem, failed⟩ := List.exists_of_findSome?_eq_some failing
      left
      refine ⟨message, after, ?_, ?_, ?_⟩
      · rw [ran, ends, publisherOutcome, failing]
      · refine ⟨⟨session.depth, (session.change number (.accepted (.verified next))).managers,
          .published number publication⟩, ?_, by simp [Event.publisherFailure?, failed]⟩
        rw [acted.chronicle_eq]
        simpa [Session.enter, Session.change] using mem
      · intro isQuiet
        rw [quiet isQuiet publication mem] at failed
        contradiction
  | none =>
      right
      have accepted := Session.Evolves.accept known current announces
      have proceeds : Proceeds services session
          ((session.change number (.accepted (.verified next))).enter
            (publications.map (.published number))) :=
        .of_same rfl rfl
      refine ⟨after, ?_, accepted.trans (.of_publisherActed acted), ?_,
        proceeds.trans (.of_publisherActed acted)⟩
      · rw [ran, ends, publisherOutcome, failing]
      · rw [acted.manager_eq]
        simp [Manager.after, Manager.withLatest]

/-- How a pending unit is verified unless the step is canceled meanwhile. -/
structure Advances (services : Services) (number : Nat) (yields : Declaration → Outcome → Prop)
    (verified : Verified) (unit : Declaration) (before : Session) (result : Outcome)
    (after : Session) : Prop where
  evolves : before.Evolves after
  yields : yields unit result
  manager : after.manager number =
    (before.manager number).withLatest (verified.withResult unit result)
  proceeds : Proceeds services before after

/-- The units are verified one after the other: unless it is disturbed, a run that comes
to a pending unit is canceled there, or verifies the unit and goes on. -/
theorem run_verifyUnits_of_pending (verifies : services.Verifies number yields)
    {unit : Declaration} {rest : List Declaration} {session : Session} {verified : Verified}
    (wellNumbered : session.WellNumbered)
    (latest : (session.manager number).latest = .verified verified)
    (verifying : (session.manager number).verifying = some verified.compilation.version)
    (notCanceled : session.canceled = false) (pending : unit.key ∉ verified.results)
    {outcome : Except Stop (Option Verified)} {after : Session}
    (ran : (verifyUnits services number verified.compilation.version (unit :: rest) verified).run
      session = (outcome, after)) :
    Disturbed services number session outcome after ∨
    (outcome = .ok (some verified) ∧ after.manager number = session.manager number ∧
      after.canceled = true ∧ Proceeds services session after) ∨
    ∃ result next, Advances services number yields verified unit session result next ∧
      (verifyUnits services number verified.compilation.version rest
        (verified.withResult unit result)).run next = (outcome, after) := by
  have isVerifying := Manager.isVerifyingLatest_of_latest latest verifying
  have known := Session.knows_of_isHeld (Or.inr isVerifying)
  rw [verifyUnits, run_bind, run_isCanceled, notCanceled] at ran
  simp only [Bool.false_eq_true, if_false, if_neg pending] at ran
  rcases run_verifyUnit_of_verifying verifies wellNumbered isVerifying
    verified.compilation.version unit with loses | ⟨result, middle, called, call⟩
  · exact Or.inl (loses.disturbed ran)
  rw [run_bind, called] at ran
  simp only at ran
  rw [run_bind, run_isCanceled] at ran
  simp only at ran
  split at ran
  · rename_i canceled
    cases ran
    rcases call.manager with ⟨newer, cause⟩ | same
    · exact Or.inl (.superseded newer cause)
    · exact Or.inr (Or.inl ⟨rfl, same, canceled, call.proceeds⟩)
  have nextVersion : (Snapshot.verified (verified.withResult unit result)).version =
      (session.manager number).latest.version := by
    rw [latest]
    rfl
  -- A newer version shows only now: the snapshot of the old one is dropped.
  rcases call.manager with ⟨newer, cause⟩ | same
  · have stale : (Snapshot.verified (verified.withResult unit result)).Precedes
        (middle.manager number).latest :=
      Or.inl (nextVersion ▸ newer)
    obtain ⟨lines, dropped⟩ := run_publish_of_precedes stale
    rw [run_bind, dropped] at ran
    cases ran
    exact Or.inl (.superseded newer cause)
  · rw [← same] at nextVersion
    have publishes := publishes_publish services (call.evolves.mem_managers known) nextVersion
    rcases publishes.bind ran with disturbed | ⟨next, continued, evolves, manager, proceeds⟩
    · exact Or.inl (disturbed.of_later known call.evolves call.proceeds)
    · rw [if_pos rfl] at continued
      rw [same] at manager
      exact Or.inr (Or.inr ⟨result, next, ⟨call.evolves.trans evolves, call.yields, manager,
        call.proceeds.trans proceeds⟩, continued⟩)

/-- How far the verification of a version has come. -/
structure Progress (services : Services) (yields : Declaration → Outcome → Prop)
    (units : List Declaration) (before : Session) (verified : Verified)
    (recorded : List (Declaration × Outcome)) (after : Session) : Prop where
  inOrder : recorded.map Prod.fst <+: verified.pending units
  yields : ∀ entry ∈ recorded, yields entry.1 entry.2
  all : recorded.map Prod.fst = verified.pending units ∨ after.canceled = true
  proceeds : Proceeds services before after

namespace Progress

variable {units rest : List Declaration} {unit : Declaration} {verified : Verified}
  {recorded : List (Declaration × Outcome)} {before middle after : Session}

theorem none (stopped : verified.pending units = [] ∨ after.canceled = true)
    (proceeds : Proceeds services before after) :
    Progress services yields units before verified [] after where
  inOrder := List.nil_prefix
  yields := by simp
  all := stopped.imp_left Eq.symm
  proceeds := proceeds

theorem pass (done : unit.key ∈ verified.results)
    (progress : Progress services yields rest before verified recorded after) :
    Progress services yields (unit :: rest) before verified recorded after where
  inOrder := by
    rw [Verified.pending_cons_of_mem done]
    exact progress.inOrder
  yields := progress.yields
  all := by
    rw [Verified.pending_cons_of_mem done]
    exact progress.all
  proceeds := progress.proceeds

theorem cons (pending : unit.key ∉ verified.results) {result : Outcome}
    (advances : Advances services number yields verified unit before result middle)
    (progress : Progress services yields rest middle (verified.withResult unit result) recorded
      after) :
    Progress services yields (unit :: rest) before verified ((unit, result) :: recorded)
      after where
  inOrder := by
    rw [Verified.pending_cons_of_not_mem pending result, List.map_cons]
    exact (List.prefix_cons_inj unit).mpr progress.inOrder
  yields entry mem := by
    rcases List.mem_cons.mp mem with rfl | mem
    · exact advances.yields
    · exact progress.yields entry mem
  all := by
    rw [Verified.pending_cons_of_not_mem pending result, List.map_cons]
    exact progress.all.imp_left (congrArg (List.cons unit))
  proceeds := advances.proceeds.trans progress.proceeds

theorem of_later (earlier : Proceeds services before middle)
    (progress : Progress services yields units middle verified recorded after) :
    Progress services yields units before verified recorded after :=
  { progress with proceeds := earlier.trans progress.proceeds }

theorem of_same (progress : Progress services yields units before verified recorded middle)
    (canceled : after.canceled = middle.canceled) (triggers : after.triggers = middle.triggers) :
    Progress services yields units before verified recorded after :=
  { progress with
    all := progress.all.imp_right canceled.trans
    proceeds := progress.proceeds.trans (.of_same canceled triggers) }

end Progress

/-- Verifying units is disturbed, or comes as far as the step is not
canceled. -/
theorem run_verifyUnits (verifies : services.Verifies number yields) (units : List Declaration)
    {session : Session} {verified : Verified} (wellNumbered : session.WellNumbered)
    (latest : (session.manager number).latest = .verified verified)
    (verifying : (session.manager number).verifying = some verified.compilation.version)
    {outcome : Except Stop (Option Verified)} {after : Session}
    (ran : (verifyUnits services number verified.compilation.version units verified).run session =
      (outcome, after)) :
    Disturbed services number session outcome after ∨
    ∃ recorded, outcome = .ok (some (verified.record recorded)) ∧
      after.manager number = (session.manager number).withLatest (verified.record recorded) ∧
      Progress services yields units session verified recorded after := by
  -- Over the units still to come: the manager is verifying and has `verified` as its latest.
  induction units generalizing session verified with
  | nil =>
      cases ran
      exact Or.inr ⟨[], rfl, (Manager.withLatest_self latest).symm, .none (Or.inl rfl) (.refl _)⟩
  | cons unit rest ih =>
      by_cases canceled : session.canceled = true
      · rw [verifyUnits, run_bind, run_isCanceled, canceled] at ran
        cases ran
        exact Or.inr ⟨[], rfl, (Manager.withLatest_self latest).symm,
          .none (Or.inr canceled) (.refl _)⟩
      have notCanceled := Bool.eq_false_iff.mpr canceled
      by_cases done : unit.key ∈ verified.results
      · rw [verifyUnits, run_bind, run_isCanceled, notCanceled] at ran
        simp only [Bool.false_eq_true, if_false, if_pos done] at ran
        rcases ih wellNumbered latest verifying ran with
          disturbed | ⟨recorded, isLast, manager, progress⟩
        · exact Or.inl disturbed
        · exact Or.inr ⟨recorded, isLast, manager, progress.pass done⟩
      rcases run_verifyUnits_of_pending verifies wellNumbered latest verifying notCanceled done
          ran with
        disturbed | ⟨isLast, manager, isCanceled, proceeds⟩ | ⟨result, next, advances, continued⟩
      · exact Or.inl disturbed
      · refine Or.inr ⟨[], isLast, ?_, .none (Or.inr isCanceled) proceeds⟩
        exact manager.trans (Manager.withLatest_self latest).symm
      · have known := Session.knows_of_isHeld
          (Or.inr (Manager.isVerifyingLatest_of_latest latest verifying))
        have nextLatest := congrArg Manager.latest advances.manager
        have nextVerifying := (congrArg Manager.verifying advances.manager).trans verifying
        rcases ih (advances.evolves.wellNumbered wellNumbered) nextLatest nextVerifying
          continued with disturbed | ⟨recorded, isLast, manager, progress⟩
        · exact Or.inl (disturbed.of_later known advances.evolves advances.proceeds)
        · refine Or.inr ⟨(unit, result) :: recorded, isLast, ?_, progress.cons done advances⟩
          rw [manager, advances.manager]
          rfl

/-- Ending a verification keeps the latest snapshot, and finishes the manager if this is
the last one of the verification. -/
theorem run_finishVerification (number : Nat) (version : Int) (last : Option Verified)
    (session : Session) :
    ∃ after, (finishVerification number version last).run session = (.ok (), after) ∧
      session.chronicle <+: after.chronicle ∧
      (after.manager number).latest = (session.manager number).latest ∧
      after.canceled = session.canceled ∧ after.triggers = session.triggers ∧
      ∀ verified, last = some verified → (session.manager number).latest = .verified verified →
        (session.manager number).verifying = some version →
        verified.compilation.version = version →
        after.manager number = (session.manager number).finish verified := by
  have ended : ((session.manager number).after (.verificationEnded version)).latest =
      (session.manager number).latest := by
    simp only [Manager.after]
    split <;> rfl
  rw [finishVerification, run_bind, run_change]
  simp only
  cases isComplete : last.filter Verified.complete with
  | none =>
      refine ⟨_, rfl, List.prefix_append _ _, ?_, rfl, rfl, ?_⟩
      · rw [Session.manager_change_self]
        exact ended
      · rintro verified rfl latest verifying rfl
        have notComplete : ¬verified.complete = true :=
          fun complete => by simp [Option.filter, complete] at isComplete
        simp [Manager.after, Manager.finish, notComplete, verifying, latest]
  | some complete =>
      simp only [run_bind, run_manager, run_log, run_change]
      refine ⟨_, rfl, ?_, ?_, rfl, rfl, ?_⟩
      · simp [Session.change, Session.enter]
      · simp only [Session.manager_change_self, Session.manager_enter]
        exact ended
      · rintro verified rfl latest verifying rfl
        obtain ⟨same, isComplete⟩ := Option.filter_eq_some_iff.mp isComplete
        obtain rfl := Option.some.inj same
        simp [Manager.after, Manager.finish, isComplete, verifying, latest]

/-- Whether a verification from a snapshot is disturbed, or finishes the manager with the
results of as many pending units as the step is not canceled. -/
def Concludes (services : Services) (number : Nat) (yields : Declaration → Outcome → Prop)
    (verified : Verified) (before : Session) (outcome : Except Stop Unit) (after : Session) :
    Prop :=
  Disturbed services number before outcome after ∨
  ∃ recorded, outcome = .ok () ∧
    after.manager number = (before.manager number).finish (verified.record recorded) ∧
    Progress services yields verified.resolved.units before verified recorded after

/-- Verifying units and ending the verification. -/
theorem concludes_verifyUnits (verifies : services.Verifies number yields)
    {session : Session} {verified : Verified} (wellNumbered : session.WellNumbered)
    (latest : (session.manager number).latest = .verified verified)
    (verifying : (session.manager number).verifying = some verified.compilation.version)
    {outcome : Except Stop Unit} {after : Session}
    (ran : (verifyUnits services number verified.compilation.version verified.resolved.units
        verified >>= finishVerification number verified.compilation.version).run session =
      (outcome, after)) :
    Concludes services number yields verified session outcome after := by
  rw [run_bind] at ran
  rcases verifiedUnits : (verifyUnits services number verified.compilation.version
    verified.resolved.units verified).run session with ⟨stop | last, middle⟩
  all_goals
    rw [verifiedUnits] at ran
    simp only at ran
  · cases ran
    rcases run_verifyUnits verifies _ wellNumbered latest verifying verifiedUnits with
      disturbed | ⟨recorded, isLast, _⟩
    · exact Or.inl (disturbed.of_earlier (Int.le_refl _) List.prefix_rfl fun _ => by simp)
    · cases isLast
  · obtain ⟨ended, finished, continues, sameLatest, canceled, triggers, finish⟩ :=
      run_finishVerification number verified.compilation.version last middle
    rw [finished] at ran
    cases ran
    rcases run_verifyUnits verifies _ wellNumbered latest verifying verifiedUnits with
      disturbed | ⟨recorded, isLast, manager, progress⟩
    · have versions := Int.le_of_eq (congrArg Snapshot.version sameLatest.symm)
      exact Or.inl (disturbed.of_earlier versions continues (by simp))
    · have middleLatest := congrArg Manager.latest manager
      have middleVerifying := (congrArg Manager.verifying manager).trans verifying
      refine Or.inr ⟨recorded, rfl, ?_, progress.of_same canceled triggers⟩
      rw [finish _ (Except.ok.inj isLast) middleLatest middleVerifying
        (congrArg _ (verified.compilation_record recorded)), manager]
      rfl

/-- A resolved version is first published without results. -/
theorem publishes_startVerification (services : Services) {session : Session} {base : Resolved}
    (known : session.Knows number)
    (same : base.compilation.version = (session.manager number).latest.version) :
    Publishes services number (.start base) (startVerification number base)
      (some (.start base)) session := by
  have publishes : Publishes services number (.start base)
      (publish number (.verified (.start base))) true session :=
    publishes_publish services known same
  rcases publishes with ⟨message, after, failed, rest⟩ | ⟨after, published, rest⟩
  · refine Or.inl ⟨message, after, ?_, rest⟩
    rw [startVerification, run_bind, failed]
  · refine Or.inr ⟨after, ?_, rest⟩
    rw [startVerification, run_bind, published]
    rfl

theorem concludes_runVerification (verifies : services.Verifies number yields)
    {begin : SessionM (Option Verified)} {session : Session} {verified : Verified}
    (wellNumbered : session.WellNumbered) (known : session.Knows number)
    (allowed : (session.manager number).Allows
      (.verificationBegun verified.compilation.version))
    (begins : Publishes services number verified begin (some verified)
      (session.change number (.verificationBegun verified.compilation.version)))
    {outcome : Except Stop Unit} {after : Session}
    (ran : (runVerification services number verified.compilation.version begin).run session =
      (outcome, after)) :
    Concludes services number yields verified session outcome after := by
  have marked := Session.Evolves.change known allowed fun _ => rfl
  have proceedsMarked : Proceeds services session
      (session.change number (.verificationBegun verified.compilation.version)) :=
    .of_same rfl rfl
  rw [runVerification, run_bind, run_change] at ran
  simp only at ran
  rcases begins.bind ran with disturbed | ⟨next, continued, evolves, manager, proceeds⟩
  · exact Or.inl (disturbed.of_later known marked proceedsMarked)
  rw [Session.manager_change_self] at manager
  have latest := congrArg Manager.latest manager
  have verifying := congrArg Manager.verifying manager
  have nextNumbered := evolves.wellNumbered (marked.wellNumbered wellNumbered)
  rcases concludes_verifyUnits verifies nextNumbered latest verifying continued with
    disturbed | ⟨recorded, ended, finished, progress⟩
  · exact Or.inl (disturbed.of_later known (marked.trans evolves) (proceedsMarked.trans proceeds))
  · refine Or.inr ⟨recorded, ended, ?_, progress.of_later (proceedsMarked.trans proceeds)⟩
    rw [finished, manager]
    simp [Manager.after, Manager.withLatest, Manager.finish, Manager.settle]

/-- Verifying the latest version of a manager that does not refuse it is disturbed, or
comes as far as the step is not canceled. -/
theorem concludes_verifyEverything (verifies : services.Verifies number yields)
    {session : Session} {verified : Verified} (wellNumbered : session.WellNumbered)
    (begins : (session.manager number).latest.begun? = some verified)
    (accepts : ¬(session.manager number).Refuses verified.compilation.version)
    {outcome : Except Stop Unit} {after : Session}
    (ran : (verifyEverything services number).run session = (outcome, after)) :
    Concludes services number yields verified session outcome after := by
  have resolved := Snapshot.rank_of_begun? begins
  have known : session.Knows number := by
    apply Session.knows_of_stage_ne
    intro unloaded
    rw [unloaded] at resolved
    contradiction
  have version := Snapshot.version_of_begun? begins
  have allowed : (session.manager number).Allows
      (.verificationBegun verified.compilation.version) := by
    have unrefused := Manager.not_refuses_iff.mp accepts
    exact ⟨version, resolved, unrefused.1, unrefused.2⟩
  have marked : (session.change number
      (.verificationBegun verified.compilation.version)).Knows number :=
    (Session.Evolves.change known allowed fun _ => rfl).mem_managers known
  have ready : (session.manager number).isReady = true := by
    simp [Manager.isReady, resolved]
  have notBlocked : ¬((session.manager number).latest.version ≤
        (session.manager number).settled ∨
      (session.manager number).verifying = some (session.manager number).latest.version) :=
    version ▸ accepts
  simp only [verifyEverything, waitUntil, run_bind, run_manager, ready, if_true, run_pure,
    if_neg notBlocked] at ran
  cases latest : (session.manager number).latest with
  | unloaded | parsed => simp [latest, Snapshot.begun?] at begins
  | resolved base =>
      rw [latest] at begins ran
      cases begins
      apply concludes_runVerification verifies wellNumbered known allowed ?_ ran
      apply publishes_startVerification services marked
      simp [Manager.after, latest, Snapshot.version, Snapshot.compilation, Verified.start]
  | verified partly =>
      rw [latest] at begins ran
      cases begins
      apply concludes_runVerification verifies wellNumbered known allowed ?_ ran
      refine Or.inr ⟨_, rfl, .refl _, ?_, .refl _⟩
      simp [Manager.after, Manager.withLatest, latest]

/-- A manager that refuses a version leaves it as it is. -/
theorem run_verifyEverything_of_begun {session : Session} {verified : Verified}
    (begins : (session.manager number).latest.begun? = some verified)
    (refuses : (session.manager number).Refuses verified.compilation.version) :
    (verifyEverything services number).run session = (.ok (), session) := by
  rw [Snapshot.version_of_begun? begins] at refuses
  exact run_verifyEverything_of_refuses (isReady_of_resolved (Snapshot.rank_of_begun? begins))
    refuses

end SessionM

end Proofline
