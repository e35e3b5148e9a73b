import Proofline.Proofs.CounterexampleRequests
import Proofline.Proofs.ScriptedVerifier

/-!
# Calls that are canceled from the start

A call that is canceled before it begins asks no service for anything. An update still
brings its manager to its version, which it gives up at once; but it publishes nothing,
and neither does a request to verify or for counterexamples, unless there is a resolved
version whose verification it begins before it looks at the cancellation.
-/

namespace Proofline

/-- Whether an event is the call of a service. -/
def Event.callsService : Event → Bool
  | .parsing _ | .resolving _ _ | .collectingSignatures _ | .collectingSymbols _
  | .checkingGhosts _ | .verifying _ _ _ => true
  | _ => false

/-- Whether at an event no service is called, nothing is published and no version comes to be
verified. -/
def Event.isQuiet : Event → Bool
  | .published _ _ | .changed _ (.verified _ _) => false
  | event => !event.callsService

namespace Session

/-- Whether no service is called from a session to another one. -/
def CallsNoService (before after : Session) : Prop :=
  ∃ entries, after.chronicle = before.chronicle ++ entries ∧
    ∀ entry ∈ entries, entry.event.callsService = false

/-- Whether no service is called from a session to another one, no diagnostics are published and
no version comes to be verified. -/
structure StaysQuiet (before after : Session) : Prop where
  chronicle : ∃ entries, after.chronicle = before.chronicle ++ entries ∧
    ∀ entry ∈ entries, entry.event.isQuiet = true
  lastVerified : ∀ number, (after.manager number).lastVerified =
    (before.manager number).lastVerified

namespace StaysQuiet

variable {first second third session : Session}

theorem refl (session : Session) : session.StaysQuiet session where
  chronicle := ⟨[], by simp, by simp⟩
  lastVerified _ := rfl

theorem trans (earlier : first.StaysQuiet second) (later : second.StaysQuiet third) :
    first.StaysQuiet third where
  chronicle := by
    rcases earlier.chronicle with ⟨entries, chronicleEq, quiet⟩
    rcases later.chronicle with ⟨others, othersEq, othersQuiet⟩
    refine ⟨entries ++ others, by rw [othersEq, chronicleEq, List.append_assoc], ?_⟩
    intro entry mem
    rcases List.mem_append.mp mem with mem | mem
    · exact quiet entry mem
    · exact othersQuiet entry mem
  lastVerified number := (later.lastVerified number).trans (earlier.lastVerified number)

theorem enter {events : List Event} (quiet : ∀ event ∈ events, event.isQuiet = true) :
    session.StaysQuiet (session.enter events) where
  chronicle := ⟨_, rfl, by simpa using quiet⟩
  lastVerified _ := rfl

theorem change {number : Nat} {change : Change}
    (quiet : (Event.changed number change).isQuiet = true) :
    session.StaysQuiet (session.change number change) where
  chronicle := ⟨_, rfl, by simpa using quiet⟩
  lastVerified other := by
    by_cases same : number = other
    · subst same
      rw [manager_change_self]
      cases change with
      | verified => cases quiet
      | verificationEnded version =>
          rw [Manager.after]
          split <;> rfl
      | _ => rfl
    · rw [manager_change_of_ne _ same]

theorem callsNoService {before after : Session} (quiet : before.StaysQuiet after) :
    before.CallsNoService after := by
  rcases quiet.chronicle with ⟨entries, chronicleEq, quiet⟩
  refine ⟨entries, chronicleEq, fun entry mem => ?_⟩
  have isQuiet := quiet entry mem
  cases isEvent : entry.event with
  | published | changed => rfl
  | _ => simpa [isEvent, Event.isQuiet] using isQuiet

end StaysQuiet

theorem latest_change {session : Session} {number : Nat} {change : Change}
    (kept : ((session.manager number).after change).latest = (session.manager number).latest)
    (other : Nat) :
    ((session.change number change).manager other).latest = (session.manager other).latest := by
  by_cases same : number = other
  · subst same
    rw [manager_change_self, kept]
  · rw [manager_change_of_ne _ same]

theorem CallsNoService.trans {first second third : Session}
    (earlier : first.CallsNoService second) (later : second.CallsNoService third) :
    first.CallsNoService third := by
  rcases earlier with ⟨entries, chronicleEq, silent⟩
  rcases later with ⟨others, othersEq, othersSilent⟩
  refine ⟨entries ++ others, by rw [othersEq, chronicleEq, List.append_assoc], ?_⟩
  intro entry mem
  rcases List.mem_append.mp mem with mem | mem
  · exact silent entry mem
  · exact othersSilent entry mem

/-- Whether no service is called from a session to another one, and at most one manager is
taken further, but to no other version. -/
structure KeepsVersion (number : Nat) (before after : Session) : Prop where
  silent : before.CallsNoService after
  others : ∀ other, number ≠ other →
    (after.manager other).latest = (before.manager other).latest
  version : (after.manager number).latest.version = (before.manager number).latest.version

namespace KeepsVersion

variable {number : Nat} {first second third session : Session}

theorem trans (earlier : first.KeepsVersion number second)
    (later : second.KeepsVersion number third) : first.KeepsVersion number third where
  silent := earlier.silent.trans later.silent
  others other different := (later.others other different).trans (earlier.others other different)
  version := later.version.trans earlier.version

theorem enter {events : List Event} (silent : ∀ event ∈ events, event.callsService = false) :
    session.KeepsVersion number (session.enter events) where
  silent := ⟨_, rfl, by simpa using silent⟩
  others _ _ := rfl
  version := rfl

theorem change {change : Change}
    (kept : ((session.manager number).after change).latest.version =
      (session.manager number).latest.version) :
    session.KeepsVersion number (session.change number change) where
  silent := ⟨_, rfl, by simp [Event.callsService]⟩
  others other different := by rw [manager_change_of_ne _ different]
  version := by rw [manager_change_self, kept]

theorem of_publisherActed (acted : PublisherActed first second) :
    first.KeepsVersion number second where
  silent := ⟨[], by rw [acted.chronicle_eq, List.append_nil], by simp⟩
  others other _ := by rw [acted.manager_eq]
  version := by rw [acted.manager_eq]

theorem of_staysQuiet (quiet : first.StaysQuiet second)
    (same : ∀ other, (second.manager other).latest = (first.manager other).latest) :
    first.KeepsVersion number second where
  silent := quiet.callsNoService
  others other _ := same other
  version := congrArg Snapshot.version (same number)

end KeepsVersion

end Session

namespace Manager

/-- Whether the latest version of a manager is resolved, and its verification is still to
begin. -/
def IsUnbegun (manager : Manager) : Prop :=
  manager.latest.stage = .resolved ∧ ¬manager.Refuses manager.latest.version

instance (manager : Manager) : Decidable manager.IsUnbegun :=
  inferInstanceAs (Decidable (_ ∧ _))

end Manager

namespace SessionM

variable {session : Session}

section Updates

variable {number : Nat} {compilation : Compilation}

/-- A version that is canceled from the start is given up. -/
theorem run_loadOrGiveUp_canceled (canceled : session.canceled = true) (services : Services)
    (number : Nat) (compilation : Compilation) (migrated : ProgressTrees) :
    (loadOrGiveUp services number compilation migrated).run session =
      (.ok .canceled, session.change number (.gaveUp compilation.version .canceled)) := by
  have parsing : (parse services compilation migrated).run session =
      (.ok (.error .requested), session) := by
    rw [parse, run_bind, run_isCanceled]
    simp only [canceled, if_true, run_pure]
  have staging : (loadStages services number compilation migrated).run session =
      (.ok .canceled, session.change number (.gaveUp compilation.version .canceled)) := by
    rw [loadStages, run_bind, parsing]
    rfl
  rw [loadOrGiveUp, run_bind, run_attempt, staging]
  rfl

theorem staysQuiet_begunUpdate (session : Session) (number : Nat) (compilation : Compilation) :
    session.StaysQuiet (session.begunUpdate number compilation) := by
  rcases session.begunUpdate_eq number compilation with ⟨lines, isBegun⟩
  rw [isBegun]
  exact .trans (.change rfl) (.enter (by simp [Event.isQuiet, Event.callsService]))

theorem latest_begunUpdate (session : Session) (number : Nat) (compilation : Compilation)
    (other : Nat) :
    ((session.begunUpdate number compilation).manager other).latest =
      (session.manager other).latest := by
  rw [Session.manager_begunUpdate]
  exact Session.latest_change rfl other

/-- What an update does first goes on being canceled. -/
theorem canceled_begunUpdate (canceled : session.canceled = true) (number : Nat)
    (compilation : Compilation) : (session.begunUpdate number compilation).canceled = true := by
  rcases session.begunUpdate_eq number compilation with ⟨lines, isBegun⟩
  rw [isBegun]
  exact canceled

/-- An update to a version that is older than the latest one, or loaded already, does nothing. -/
theorem run_update_of_precedes
    (stale : (Snapshot.unloaded { compilation }).Precedes (session.manager number).latest) :
    ∃ after, (∀ services, (update services number compilation).run session =
        (.ok .superseded, after)) ∧
      session.StaysQuiet after ∧
      ∀ other, (after.manager other).latest = (session.manager other).latest := by
  rcases Int.lt_or_le compilation.version (session.manager number).latest.version with
    older | notOlder
  · exact ⟨session, run_update_of_older older, .refl session, fun _ => rfl⟩
  · rcases run_update_of_stale notOlder stale with ⟨lines, ran⟩
    refine ⟨_, ran, .trans (.trans (staysQuiet_begunUpdate session number compilation)
      (.enter (by simp [Event.isQuiet, Event.callsService]))) (.change rfl), fun other => ?_⟩
    exact (Session.latest_change rfl other).trans (latest_begunUpdate session number _ other)

/-- An update that is canceled from the start takes its manager to the unloaded version, unless
that is turned away, and no further. -/
theorem run_update_canceled (canceled : session.canceled = true) (number : Nat)
    (compilation : Compilation) :
    ∃ after,
      (∀ services, (update services number compilation).run session =
        (.ok (if (Snapshot.unloaded { compilation }).Precedes (session.manager number).latest then
          .superseded else .canceled), after)) ∧
      session.StaysQuiet after ∧
      ∀ other, (after.manager other).latest =
        if other = number ∧
            ¬(Snapshot.unloaded { compilation }).Precedes (session.manager number).latest then
          .unloaded { compilation }
        else
          (session.manager other).latest := by
  by_cases stale : (Snapshot.unloaded { compilation }).Precedes (session.manager number).latest
  · simp only [stale, not_true_eq_false, and_false, if_false, if_true]
    exact run_update_of_precedes stale
  · have notOlder : (session.manager number).latest.version ≤ compilation.version :=
      Int.not_lt.mp fun older => stale (Or.inl older)
    have givesUp (services : Services) : (update services number compilation).run session =
        (.ok .canceled, ((session.openedUpdate number compilation).change number
          (.gaveUp compilation.version .canceled)).change number
            (.updateEnded compilation.version .canceled)) := by
      have stillCanceled : (session.openedUpdate number compilation).canceled = true :=
        canceled_begunUpdate canceled number compilation
      rw [run_update_of_not_stale services notOlder stale, run_bind,
        run_loadOrGiveUp_canceled stillCanceled]
      rfl
    simp only [stale, not_false_eq_true, and_true, if_false]
    refine ⟨_, givesUp, .trans (.trans (.trans (staysQuiet_begunUpdate session number _)
      (.change rfl)) (.change rfl)) (.change rfl), fun other => ?_⟩
    rw [Session.latest_change rfl, Session.latest_change rfl, Session.openedUpdate]
    by_cases same : number = other
    · subst same
      simp [Manager.after]
    · rw [Session.manager_change_of_ne _ same, if_neg (Ne.symm same)]
      exact latest_begunUpdate session number compilation other

end Updates

section Verification

variable {number : Nat}

/-- When a verification is canceled from the start, no unit is verified. -/
theorem run_verifyUnits_canceled (canceled : session.canceled = true) (services : Services)
    (number : Nat) (version : Int) (units : List Declaration) (verified : Verified) :
    (verifyUnits services number version units verified).run session =
      (.ok (some verified), session) := by
  cases units with
  | nil => rfl
  | cons unit rest =>
      rw [verifyUnits, run_bind, run_isCanceled]
      simp only [canceled, if_true, run_pure]

/-- A verification that ends on behalf of who is canceled calls no service. -/
theorem run_finishVerification_canceled (canceled : session.canceled = true) (number : Nat)
    (version : Int) (last : Option Verified) :
    ∃ after, (finishVerification number version last).run session = (.ok (), after) ∧
      session.KeepsVersion number after ∧ after.canceled = true ∧
      (last.filter Verified.complete = none → ∀ other,
        (after.manager other).lastVerified = (session.manager other).lastVerified) := by
  have ended : session.KeepsVersion number (session.change number (.verificationEnded version)) :=
    .change (congrArg Snapshot.version (Manager.latest_verificationEnded _ _))
  rw [finishVerification, run_bind, run_change]
  simp only
  cases last.filter Verified.complete with
  | none =>
      have quiet : session.StaysQuiet (session.change number (.verificationEnded version)) :=
        .change rfl
      exact ⟨_, rfl, ended, canceled, fun _ => quiet.lastVerified⟩
  | some verified =>
      simp only [run_bind, run_manager, run_log, run_change]
      exact ⟨_, rfl, (ended.trans (.enter (by simp [Event.callsService]))).trans (.change rfl),
        canceled, by simp⟩

/-- A verification that is canceled from the start leaves the session as it is, but for the mark
of its version. -/
theorem run_runVerification_canceled (canceled : session.canceled = true) (services : Services)
    (number : Nat) {version : Int} {partly : Verified} (incomplete : partly.complete = false) :
    (runVerification services number version (return some partly)).run session =
      (.ok (), (session.change number (.verificationBegun version)).change number
        (.verificationEnded version)) := by
  have marked : (session.change number (.verificationBegun version)).canceled = true := canceled
  rw [runVerification, run_bind, run_change]
  simp only [run_bind, run_pure, run_verifyUnits_canceled marked]
  rw [finishVerification, run_bind, run_change]
  simp only [Option.filter_some, incomplete, Bool.false_eq_true, if_false, run_pure]

/-- Nothing is verified on behalf of who is canceled from the start, unless a verification is
still to begin. -/
theorem run_verifyEverything_canceled (canceled : session.canceled = true)
    (concludes : (session.manager number).Concludes) (begun : ¬(session.manager number).IsUnbegun) :
    ∃ after, (∀ services, (verifyEverything services number).run session = (.ok (), after)) ∧
      session.StaysQuiet after ∧ after.canceled = true ∧
      ∀ other, (after.manager other).latest = (session.manager other).latest := by
  have returns (unchanged : ∀ services,
      (verifyEverything services number).run session = (.ok (), session)) :
      ∃ after, (∀ services, (verifyEverything services number).run session = (.ok (), after)) ∧
        session.StaysQuiet after ∧ after.canceled = true ∧
        ∀ other, (after.manager other).latest = (session.manager other).latest :=
    ⟨session, unchanged, .refl session, canceled, fun _ => rfl⟩
  cases ready : (session.manager number).isReady with
  | false =>
      apply returns
      intro services
      simp only [verifyEverything, waitUntil, run_bind, run_manager, ready, Bool.false_eq_true,
        if_false, run_isCanceled, canceled, if_true, run_pure]
  | true =>
      by_cases refuses : (session.manager number).Refuses (session.manager number).latest.version
      · exact returns fun services => run_verifyEverything_of_refuses ready refuses
      have ran (services : Services) : (verifyEverything services number).run session = _ :=
        run_verifyEverything_of_accepts ready refuses
      cases latest : (session.manager number).latest with
      | unloaded | parsed =>
          simp only [latest] at ran
          exact returns ran
      | resolved base => exact absurd ⟨by rw [latest]; rfl, refuses⟩ begun
      | verified partly =>
          simp only [latest] at ran refuses
          have incomplete : partly.complete = false :=
            Bool.eq_false_iff.mpr (mt (concludes partly latest) refuses)
          refine ⟨(session.change number (.verificationBegun partly.compilation.version)).change
            number (.verificationEnded partly.compilation.version), fun services => ?_,
            .trans (.change rfl) (.change rfl), canceled, fun other => ?_⟩
          · rw [ran, run_runVerification_canceled canceled services number incomplete]
          · exact (Session.latest_change (Manager.latest_verificationEnded _ _) other).trans
              (Session.latest_change rfl other)

/-- A snapshot without results is complete only if there is nothing to verify. -/
theorem complete_start {base : Resolved} (pending : base.units ≠ []) :
    (Verified.start base).complete = false :=
  decide_eq_false (Nat.not_le_of_lt (List.length_pos_iff.mpr pending))

/-- What a publisher made of its publications came back. -/
theorem cameBack_publisherOutcome {α : Type} (publications : List Publication) (value : α) :
    Session.cameBack (publisherOutcome publications value) = true := by
  unfold publisherOutcome
  split <;> rfl

/-- A snapshot of the latest version can be published without a call of a service. -/
theorem keepsVersion_publish {snapshot : Snapshot}
    (current : ¬snapshot.Precedes (session.manager number).latest)
    (same : snapshot.version = (session.manager number).latest.version) :
    Session.cameBack ((publish number snapshot).run session).1 = true ∧
      session.KeepsVersion number ((publish number snapshot).run session).2 ∧
      (session.canceled = true → ((publish number snapshot).run session).2.canceled = true) ∧
      ∀ other, (((publish number snapshot).run session).2.manager other).lastVerified =
        (session.manager other).lastVerified := by
  rcases run_publish_of_not_precedes current with ⟨publications, _, ends, acted, _⟩
  have accepts : session.KeepsVersion number (session.change number (.accepted snapshot)) :=
    .change same
  have announced : (session.change number (.accepted snapshot)).KeepsVersion number
      ((session.change number (.accepted snapshot)).enter
        (publications.map (.published number))) :=
    .enter (by simp [Event.callsService])
  have quiet : session.StaysQuiet (session.change number (.accepted snapshot)) := .change rfl
  refine ⟨ends ▸ cameBack_publisherOutcome publications true,
    (accepts.trans announced).trans (.of_publisherActed acted),
    fun canceled => acted.canceled canceled, fun other => ?_⟩
  rw [acted.manager_eq]
  exact quiet.lastVerified other

/-- Even a verification that is still to begin calls no service when it is canceled from the
start. -/
theorem keepsVersion_startedVerification (canceled : session.canceled = true) {base : Resolved}
    (latest : (session.manager number).latest = .resolved base) :
    ∃ outcome after, (∀ services, (runVerification services number base.compilation.version
        (startVerification number base)).run session = (outcome, after)) ∧
      Session.cameBack outcome = true ∧ session.KeepsVersion number after ∧
      after.canceled = true ∧ (base.units ≠ [] → ∀ other,
        (after.manager other).lastVerified = (session.manager other).lastVerified) := by
  let marked := session.change number (.verificationBegun base.compilation.version)
  have marks : session.StaysQuiet marked := .change rfl
  have markedLatest : (marked.manager number).latest = .resolved base :=
    (Session.latest_change rfl number).trans latest
  have current : ¬(Snapshot.verified (.start base)).Precedes (marked.manager number).latest := by
    rw [markedLatest]
    rintro (newer | ⟨_, further⟩)
    · exact Int.lt_irrefl _ newer
    · exact absurd further (Nat.not_lt_of_gt (Nat.lt_succ_self _))
  have sameVersion : (Snapshot.verified (.start base)).version =
      (marked.manager number).latest.version := by
    rw [markedLatest]
    rfl
  obtain ⟨back, publishes, keepsCanceled, publishedVerified⟩ :=
    keepsVersion_publish current sameVersion
  rcases published : (publish number (.verified (.start base))).run marked with ⟨outcome, middle⟩
  rw [published] at back publishes keepsCanceled publishedVerified
  have begins : session.KeepsVersion number middle :=
    .trans (.of_staysQuiet marks (Session.latest_change rfl)) publishes
  have unverified (other : Nat) :
      (middle.manager other).lastVerified = (session.manager other).lastVerified :=
    (publishedVerified other).trans (marks.lastVerified other)
  have stillCanceled : middle.canceled = true := keepsCanceled canceled
  have ran (services : Services) : (runVerification services number base.compilation.version
      (startVerification number base)).run session =
        match (outcome, middle) with
        | (.ok accepted, middle) => (verifyFrom services number base.compilation.version
            (if accepted then some (.start base) else none)).run middle
        | (.error stop, middle) => (.error stop, middle) := by
    rw [runVerification_eq, run_bind, run_change]
    simp only [startVerification, run_bind]
    rw [published]
    rcases outcome with stop | (_ | _) <;> rfl
  rcases outcome with stop | accepted
  · have failed : Session.cameBack (.error stop : Except Stop Unit) = true := by
      cases stop with
      | failed => rfl
      | stuck | misused => cases back
    exact ⟨.error stop, middle, ran, failed, begins, stillCanceled, fun _ => unverified⟩
  · rcases run_finishVerification_canceled stillCanceled number base.compilation.version
      (if accepted then some (.start base) else none) with
      ⟨after, finished, finishes, finally', incomplete⟩
    refine ⟨.ok (), after, fun services => ?_, rfl, begins.trans finishes, finally',
      fun pending other => ?_⟩
    · rw [ran, ← finished]
      cases accepted with
      | false => rfl
      | true => simp only [if_true, verifyFrom, run_bind, run_verifyUnits_canceled stillCanceled]
    · refine (incomplete ?_ other).trans (unverified other)
      cases accepted with
      | false => rfl
      | true => simp [complete_start pending]

/-- No unit is verified on behalf of who is canceled from the start. -/
theorem keepsVersion_verifyEverything (canceled : session.canceled = true)
    (concludes : (session.manager number).Concludes) :
    ∃ outcome after, (∀ services, (verifyEverything services number).run session =
        (outcome, after)) ∧
      Session.cameBack outcome = true ∧ session.KeepsVersion number after ∧
      after.canceled = true ∧
      ((∀ base, (session.manager number).latest = .resolved base → base.units ≠ []) →
        ∀ other, (after.manager other).lastVerified = (session.manager other).lastVerified) := by
  by_cases begun : (session.manager number).IsUnbegun
  · rcases latest : (session.manager number).latest with _ | _ | base | _
    · simp [Manager.IsUnbegun, latest, Snapshot.stage] at begun
    · simp [Manager.IsUnbegun, latest, Snapshot.stage] at begun
    · rcases keepsVersion_startedVerification canceled latest with
        ⟨outcome, after, ran, back, keeps, stillCanceled, unverified⟩
      have ready : (session.manager number).isReady = true :=
        isReady_of_resolved (Nat.le_of_eq (congrArg Stage.rank begun.1.symm))
      refine ⟨outcome, after, fun services => ?_, back, keeps, stillCanceled,
        fun pending => unverified (pending base rfl)⟩
      rw [run_verifyEverything_of_accepts ready begun.2, latest]
      exact ran services
    · simp [Manager.IsUnbegun, latest, Snapshot.stage] at begun
  · rcases run_verifyEverything_canceled canceled concludes begun with
      ⟨after, ran, quiet, stillCanceled, same⟩
    exact ⟨_, after, ran, rfl, .of_staysQuiet quiet same, stillCanceled,
      fun _ => quiet.lastVerified⟩

end Verification

section Requests

/-- Waiting on behalf of who is canceled ends at once. -/
theorem run_awaitVerified_canceled (canceled : session.canceled = true) (number : Nat) :
    ∃ awaited, (awaitVerified number).run session = (.ok awaited, session) := by
  cases settled : (session.manager number).isSettled (session.manager number).latest.version with
  | true => exact ⟨_, run_awaitVerified_of_isSettled settled⟩
  | false => exact ⟨none, by rw [run_awaitVerified_of_not_isSettled settled, if_pos canceled]⟩

theorem run_itemsOfVerified_canceled (canceled : session.canceled = true) (uri : String)
    (depth : Nat) (verified : Verified) :
    ∃ lines : List String, (itemsOfVerified uri depth verified).run session =
      (.ok [], session.enter (lines.map .logged)) := by
  rw [itemsOfVerified]
  split
  · rw [run_bind, run_log]
    exact ⟨_, rfl⟩
  · refine ⟨[], ?_⟩
    rw [run_bind, run_isCanceled, canceled]
    simp only [Model.extract]
    rcases Model.itemsOf_canceled depth (Model.numberedStates verified.counterexamples) with
      nothing | stopped
    · rw [nothing]
      simp
    · rw [stopped]
      simp

/-- A request for counterexamples is answered with an empty list when it is canceled. -/
theorem run_serveCounterexamples_canceled {number : Nat} {uri : String} (depth : Nat)
    (found : session.findProject? uri = some number) (outcome : Except Stop Unit)
    {middle : Session} (back : Session.cameBack outcome = true)
    (canceled : middle.canceled = true) :
    ∃ events : List Event, (∀ event ∈ events, event.isQuiet = true) ∧
      ∀ services, (verifyEverything services number).run session = (outcome, middle) →
        (serveCounterexamples services uri depth).run session = (.ok [], middle.enter events) := by
  have logged (lines : List String) : ∀ event ∈ lines.map Event.logged, event.isQuiet = true := by
    simp [Event.isQuiet, Event.callsService]
  rcases outcome with (message | _ | _) | _
  · exact ⟨[.failureReported counterexampleTag message], by simp [Event.isQuiet,
      Event.callsService], fun services => run_serveCounterexamples_of_failed depth found⟩
  · cases back
  · cases back
  · rcases run_awaitVerified_canceled canceled number with ⟨awaited, awaits⟩
    cases awaited with
    | none =>
        exact ⟨_, logged _, fun services verifies =>
          run_serveCounterexamples_of_unverified depth found verifies awaits⟩
    | some verified =>
        rcases run_itemsOfVerified_canceled canceled uri depth verified with ⟨lines, extracts⟩
        refine ⟨_, logged lines, fun services verifies => ?_⟩
        rw [run_serveCounterexamples_of_verified depth found verifies awaits, extracts]

/-- A request that is canceled from the start calls no service and is answered with an empty
list. -/
theorem keepsVersion_serveCounterexamples {number : Nat} {uri : String} (depth : Nat)
    (canceled : session.canceled = true) (concludes : (session.manager number).Concludes)
    (found : session.findProject? uri = some number) :
    ∃ after,
      (∀ services, (serveCounterexamples services uri depth).run session = (.ok [], after)) ∧
      session.KeepsVersion number after ∧
      ((∀ base, (session.manager number).latest = .resolved base → base.units ≠ []) →
        ∀ other, (after.manager other).lastVerified = (session.manager other).lastVerified) := by
  rcases keepsVersion_verifyEverything canceled concludes with
    ⟨outcome, middle, ran, back, keeps, stillCanceled, unverified⟩
  rcases run_serveCounterexamples_canceled depth found outcome back stillCanceled with
    ⟨events, quiet, serves⟩
  exact ⟨_, fun services => serves services (ran services),
    keeps.trans (.of_staysQuiet (.enter quiet) fun _ => rfl), unverified⟩

end Requests

end SessionM

namespace Session

open SessionM

theorem Obtains.cancel {session : Session} (obtains : session.Obtains) :
    Session.Obtains { session with canceled := true } := by
  have canceled : session.Behaves none true { session with canceled := true } :=
    .of_surroundings rfl rfl rfl rfl id
  exact obtains.of_behaves canceled

/-- What calls in a session do that are canceled from the start. -/
structure DeclinesCalls (session : Session) : Prop where
  /-- An update takes its manager to the unloaded version at most. -/
  update : ∀ number compilation, ∃ after,
    (∀ services, (update services number compilation).run session =
      (.ok (if (Snapshot.unloaded { compilation }).Precedes (session.manager number).latest then
        .superseded else .canceled), after)) ∧
    session.StaysQuiet after ∧
    ∀ other, (after.manager other).latest =
      if other = number ∧
          ¬(Snapshot.unloaded { compilation }).Precedes (session.manager number).latest then
        .unloaded { compilation }
      else
        (session.manager other).latest
  /-- No service is called to verify, and no version that has units comes to be verified. -/
  verification : ∀ number, ∃ outcome after,
    (∀ services, (verifyEverything services number).run session = (outcome, after)) ∧
      session.KeepsVersion number after ∧
      ((∀ base, (session.manager number).latest = .resolved base → base.units ≠ []) →
        ∀ other, (after.manager other).lastVerified = (session.manager other).lastVerified)
  verify : ∀ number, ¬(session.manager number).IsUnbegun → ∃ after,
    (∀ services, (verifyEverything services number).run session = (.ok (), after)) ∧
      session.StaysQuiet after ∧
      ∀ other, (after.manager other).latest = (session.manager other).latest
  /-- A request for counterexamples is answered with an empty list. -/
  request : ∀ uri depth number, session.findProject? uri = some number → ∃ after,
    (∀ services, (serveCounterexamples services uri depth).run session = (.ok [], after)) ∧
      session.KeepsVersion number after ∧
      ((∀ base, (session.manager number).latest = .resolved base → base.units ≠ []) →
        ∀ other, (after.manager other).lastVerified = (session.manager other).lastVerified)
  counterexamples : ∀ uri depth,
    (∀ number, session.findProject? uri = some number → ¬(session.manager number).IsUnbegun) →
      ∃ after,
        (∀ services, (serveCounterexamples services uri depth).run session = (.ok [], after)) ∧
          session.StaysQuiet after ∧
          ∀ other, (after.manager other).latest = (session.manager other).latest

/-- Calls that are canceled from the start call no service, and they take no manager further
except that an update comes to its unloaded version. Where a verification is still to begin,
this leaves open to which snapshot of its version the manager comes. -/
theorem Obtains.declinesCalls {session : Session} (obtains : session.Obtains)
    (canceled : session.canceled = true) : session.DeclinesCalls where
  update := run_update_canceled canceled
  verification number := by
    rcases keepsVersion_verifyEverything canceled (obtains.concludes number) with
      ⟨outcome, after, ran, _, keeps, _, unverified⟩
    exact ⟨outcome, after, ran, keeps, unverified⟩
  verify number begun := by
    rcases run_verifyEverything_canceled canceled (obtains.concludes number) begun with
      ⟨after, ran, quiet, _, latest⟩
    exact ⟨after, ran, quiet, latest⟩
  request uri depth number :=
    keepsVersion_serveCounterexamples depth canceled (obtains.concludes number)
  counterexamples uri depth begun := by
    cases found : session.findProject? uri with
    | none =>
        rcases run_serveCounterexamples_of_unknown depth found with ⟨lines, ran⟩
        exact ⟨_, ran, .enter (by simp [Event.isQuiet, Event.callsService]), fun _ => rfl⟩
    | some number =>
        rcases run_verifyEverything_canceled canceled (obtains.concludes number)
          (begun number found) with ⟨middle, ran, quiet, stillCanceled, latest⟩
        rcases run_serveCounterexamples_canceled depth found (.ok ()) rfl stillCanceled with
          ⟨events, eventsQuiet, serves⟩
        exact ⟨_, fun services => serves services (ran services), quiet.trans (.enter eventsQuiet),
          latest⟩

/-- The session in which the sample project was loaded and verified, for a caller who is
canceled. -/
def canceledSample : Session :=
  { verifiedSample with canceled := true }

/-- Who is canceled there neither verifies the sample project nor sees its counterexamples. -/
theorem declinesCalls_sample :
    canceledSample.DeclinesCalls ∧ ¬(canceledSample.manager 0).IsUnbegun ∧
      canceledSample.findProject? "a" = some 0 := by
  have obtains : verifiedSample.Obtains := obtains_run {} 0 _
  exact ⟨(obtains.cancel : canceledSample.Obtains).declinesCalls rfl, by decide +kernel,
    by decide +kernel⟩

/-- But an update to version 2 unloads the version that was verified, and a verification that is
still to begin takes its version to a verified snapshot. A version without units even comes to be
verified. -/
theorem canceledCalls_sample :
    canceledSample.canceled = true ∧ (canceledSample.manager 0).standing = (.verified, 1) ∧
      (((SessionM.update ((Plan.succeeding none).services (Step.perform 0)) 0
        { Compilation.sample with version := 2 }).run canceledSample).2.manager 0).standing =
          (.unloaded, 2) ∧
      ((sample 1 [false]).manager 0).standing = (.resolved, 1) ∧
      ((SessionM.verifySample.run
        { sample 1 [false] with canceled := true }).2.manager 0).standing = (.verified, 1) ∧
      ((sample 0 [false]).manager 0).lastVerified.isSome = false ∧
      ((SessionM.verifySample.run
        { sample 0 [false] with canceled := true }).2.manager 0).lastVerified.isSome = true := by
  decide +kernel

end Session

end Proofline
