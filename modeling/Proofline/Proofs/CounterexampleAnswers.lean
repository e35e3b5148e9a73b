import Proofline.Proofs.AwaitedVersions
import Proofline.Proofs.CanceledCalls
import Proofline.Proofs.Catalog
import Proofline.Proofs.Failures

/-!
# Answers to requests for counterexamples

A request for counterexamples is answered with all items of a version or with none. The
version is the latest one of the first open project that has the document, and was verified
in full. A request fails with no message of its own: what goes wrong is reported once, and
answered with an empty list.
-/

namespace Proofline

namespace Session

/-- Whether the latest version of a manager was verified in full, and what its snapshot is. -/
structure HasVerifiedLatest (number : Nat) (verified : Verified) (session : Session) : Prop where
  isLast : (session.manager number).lastVerified = some verified
  version : verified.compilation.version = (session.manager number).latest.version
  complete : verified.complete = true
  finished : verified.IsFinished

/-- Entering events changes nothing about what was verified. -/
theorem hasVerifiedLatest_enter_iff {number : Nat} {session : Session} {verified : Verified}
    {events : List Event} : (session.enter events).HasVerifiedLatest number verified ↔
      session.HasVerifiedLatest number verified :=
  ⟨fun has => ⟨has.isLast, has.version, has.complete, has.finished⟩,
    fun has => ⟨has.isLast, has.version, has.complete, has.finished⟩⟩

namespace Arises

variable {session : Session} {number : Nat} {verified : Verified}

/-- Who awaits the latest version gets it as it was verified in full, or nothing. -/
theorem hasVerifiedLatest (arises : session.Arises) {after : Session}
    (awaits : (SessionM.awaitVerified number).run session = (.ok (some verified), after)) :
    session.HasVerifiedLatest number verified := by
  rcases SessionM.lastVerified_of_run_awaitVerified awaits with ⟨isLast, current⟩
  rcases arises.recorded_of_lastVerified isLast with ⟨earlier, entry, later, parts, _, seen⟩
  have reachable := arises.occurs.isReachable
  have counted := (arises.occurs.isCounted_and_hasAccepted parts seen).1
  have complete := ((reachable.history.1.accounted number).verified verified isLast).1
  rcases seen with ⟨first, mem, isLatest⟩
  have known : number ∈ first.managers :=
    first.mem_managers_of_stage_ne (by rw [isLatest]; nofun)
  have notNewer := reachable.version_le_of_mem (by simp [parts, mem]) known
  rw [isLatest] at notNewer
  exact ⟨isLast, Int.le_antisymm notNewer current, complete, counted.isFinished complete⟩

theorem run_awaitVerified (arises : session.Arises)
    (has : session.HasVerifiedLatest number verified) :
    (SessionM.awaitVerified number).run session = (.ok (some verified), session) := by
  have accounted := arises.occurs.isReachable.history.1.accounted number
  have settled : (session.manager number).isSettled
      (session.manager number).latest.version = true := by
    have reached : verified.compilation.version ≤ (session.manager number).settled :=
      (accounted.verified verified has.isLast).2
    rw [has.version] at reached
    simpa [Manager.isSettled] using Or.inl reached
  rw [SessionM.run_awaitVerified_of_isSettled settled, has.isLast, ← has.version]
  simp [Option.filter]

/-- A version that was verified in full is delivered. -/
theorem eq_of_awaits (arises : session.Arises) {awaited : Option Verified} {events : List Event}
    (awaits : (SessionM.awaitVerified number).run session = (.ok awaited, session))
    (has : (session.enter events).HasVerifiedLatest number verified) : awaited = some verified := by
  rw [arises.run_awaitVerified (hasVerifiedLatest_enter_iff.mp has)] at awaits
  exact (Except.ok.inj (congrArg Prod.fst awaits)).symm

end Arises

end Session

namespace SessionM

/-- How a request for the counterexamples of a project is served, with the answer and the
session it leads to. -/
inductive Served (services : Services) (number : Nat) (depth : Nat) (session : Session) :
    List Item → Session → Prop
  | failed {message : String} {middle : Session}
      (verification : (verifyEverything services number).run session =
        (.error (.failed message), middle)) :
      Served services number depth session []
        (middle.enter [.failureReported counterexampleTag message])
  | unverified {middle : Session} (lines : List String)
      (verification : (verifyEverything services number).run session = (.ok (), middle))
      (awaits : (awaitVerified number).run middle = (.ok none, middle)) :
      Served services number depth session [] (middle.enter (lines.map .logged))
  | shown {middle : Session} {verified : Verified} {items : List Item} (lines : List String)
      (verification : (verifyEverything services number).run session = (.ok (), middle))
      (awaits : (awaitVerified number).run middle = (.ok (some verified), middle))
      (shows : verified.IsShownBy depth items) :
      Served services number depth session items (middle.enter (lines.map .logged))
  | canceled {middle : Session} (stopped : middle.canceled = true) :
      Served services number depth session [] middle
  | unreadable {middle : Session} {verified : Verified} {message : String}
      (verification : (verifyEverything services number).run session = (.ok (), middle))
      (awaits : (awaitVerified number).run middle = (.ok (some verified), middle))
      (complains : verified.unreadable? = some message) :
      Served services number depth session []
        (middle.enter [.failureReported counterexampleTag message])

variable {services : Services} {session after : Session} {number depth : Nat} {uri : String}
  {items : List Item}

/-- Every request that is answered is served in one of these ways. -/
theorem served_of_run (found : session.findProject? uri = some number)
    (ran : (serveCounterexamples services uri depth).run session = (.ok items, after)) :
    Served services number depth session items after := by
  rcases verification : (verifyEverything services number).run session with
    ⟨(message | _ | _) | _, middle⟩
  · rw [run_serveCounterexamples_of_failed depth found verification] at ran
    cases ran
    exact .failed verification
  · rw [run_serveCounterexamples_of_found depth found, counterexamplesOf, run_bind,
      verification] at ran
    cases ran
  · rw [run_serveCounterexamples_of_found depth found, counterexamplesOf, run_bind,
      verification] at ran
    cases ran
  rcases run_awaitVerified_cases number middle with ⟨_ | verified, awaits⟩ | stuck
  · rw [run_serveCounterexamples_of_unverified depth found verification awaits] at ran
    cases ran
    exact .unverified _ verification awaits
  · rw [run_serveCounterexamples_of_verified depth found verification awaits] at ran
    rcases run_itemsOfVerified uri depth verified middle with
      ⟨items, lines, shows, extracts⟩ | ⟨stopped, extracts⟩ | ⟨message, complains, extracts⟩
    · rw [extracts] at ran
      cases ran
      exact .shown lines verification awaits shows
    · rw [extracts] at ran
      cases ran
      exact .canceled stopped
    · rw [extracts] at ran
      cases ran
      exact .unreadable verification awaits complains
  · rw [run_serveCounterexamples_of_found depth found, counterexamplesOf, run_bind,
      verification] at ran
    simp only [run_bind, stuck] at ran
    cases ran

namespace Served

variable {verified : Verified} (served : Served services number depth session items after)
  (arises : ∀ outcome middle,
    (verifyEverything services number).run session = (outcome, middle) → middle.Arises)

include served arises

/-- The answer is empty or complete. -/
theorem answers :
    items = [] ∨ ∃ verified, after.HasVerifiedLatest number verified ∧
      verified.IsShownBy depth items := by
  cases served with
  | failed | unverified | canceled | unreadable => exact Or.inl rfl
  | shown lines verification awaits shows =>
      have latest := (arises _ _ verification).hasVerifiedLatest awaits
      exact Or.inr ⟨_, Session.hasVerifiedLatest_enter_iff.mpr latest, shows⟩

/-- If a state of the version carries no position, that is reported, or that the verification
failed. -/
theorem reports_of_isUnreadable (notCanceled : after.canceled = false)
    (has : after.HasVerifiedLatest number verified)
    (isUnreadable : ∃ state ∈ Model.allStates verified.counterexamples, state.IsUnreadable) :
    items = [] ∧ ∃ message,
      (verified.unreadable? = some message ∨
        ((verifyEverything services number).run session).1 = .error (.failed message)) ∧
      failuresOf counterexampleTag after.chronicle =
        failuresOf counterexampleTag
          ((verifyEverything services number).run session).2.chronicle ++ [message] := by
  cases served with
  | failed verification =>
      rw [verification]
      exact ⟨rfl, _, Or.inr rfl, by rw [Session.failuresOf_enter]; rfl⟩
  | unverified lines verification awaits =>
      cases (arises _ _ verification).eq_of_awaits awaits has
  | shown lines verification awaits shows =>
      cases (arises _ _ verification).eq_of_awaits awaits has
      have complains := Verified.isSome_unreadable?_iff.mpr isUnreadable
      rw [shows.unreadable?_eq_none] at complains
      cases complains
  | canceled stopped => exact absurd (stopped.symm.trans notCanceled) (by simp)
  | unreadable verification awaits said =>
      cases (arises _ _ verification).eq_of_awaits awaits has
      rw [verification]
      exact ⟨rfl, _, Or.inl said, by rw [Session.failuresOf_enter]; rfl⟩

/-- If all states of the version carry a position they are shown, unless the verification
failed. -/
theorem shows_of_not_isUnreadable (notCanceled : after.canceled = false)
    (has : after.HasVerifiedLatest number verified)
    (isReadable : ¬∃ state ∈ Model.allStates verified.counterexamples, state.IsUnreadable)
    (notFailed : ∀ message,
      ((verifyEverything services number).run session).1 ≠ .error (.failed message)) :
    verified.IsShownBy depth items ∧ failuresOf counterexampleTag after.chronicle =
      failuresOf counterexampleTag
        ((verifyEverything services number).run session).2.chronicle := by
  cases served with
  | failed verification => exact absurd (congrArg Prod.fst verification) (notFailed _)
  | unverified lines verification awaits =>
      cases (arises _ _ verification).eq_of_awaits awaits has
  | shown lines verification awaits shows =>
      cases (arises _ _ verification).eq_of_awaits awaits has
      rw [verification, Session.failuresOf_enter]
      exact ⟨shows, by simp [Event.failure?, List.filterMap_map, Function.comp_def]⟩
  | canceled stopped => exact absurd (stopped.symm.trans notCanceled) (by simp)
  | unreadable verification awaits said =>
      cases (arises _ _ verification).eq_of_awaits awaits has
      exact absurd (Verified.isSome_unreadable?_iff.mp (by simp [said])) isReadable

end Served

/-- No failure escapes from a request. -/
theorem neverFails_serveCounterexamples (services : Services) (uri : String) (depth : Nat)
    (session : Session) (message : String) :
    ((serveCounterexamples services uri depth).run session).1 ≠ .error (.failed message) := by
  have caught := neverFails_attempt (counterexamples services uri depth) session message
  rw [serveCounterexamples, run_bind]
  rcases ran : (attempt (counterexamples services uri depth)).run session with ⟨outcome, after⟩
  rw [ran] at caught
  rcases outcome with stop | (failure | items)
  · simpa using caught
  · simp only [reportFailure, run_bind, run_record, run_pure]
    simp
  · simp

end SessionM

namespace Session

open SessionM (verifyEverything serveCounterexamples counterexampleTag)

/-- What becomes of a request for the counterexamples of a document. -/
structure ServesCounterexamples (services : Services) (uri : String) (depth : Nat)
    (session : Session) : Prop where
  /-- No failure escapes. -/
  neverFails : ∀ message,
    ((serveCounterexamples services uri depth).run session).1 ≠ .error (.failed message)
  /-- The answer is empty or complete. -/
  answers : ∀ items after, (serveCounterexamples services uri depth).run session =
      (.ok items, after) →
    items = [] ∨ ∃ number verified, session.IsFirstOwner uri number ∧
      after.HasVerifiedLatest number verified ∧ verified.IsShownBy depth items
  /-- Who is canceled beforehand gets nothing, and the verifier is not called. -/
  canceled : session.canceled = true → ∃ after,
    (∀ others : Services, (serveCounterexamples others uri depth).run session = (.ok [], after)) ∧
      session.CallsNoService after
  /-- A state that carries no position is reported once, unless the verification failed. -/
  unreadable : ∀ items after number verified,
    (serveCounterexamples services uri depth).run session = (.ok items, after) →
    after.canceled = false → session.IsFirstOwner uri number →
    after.HasVerifiedLatest number verified →
    (∃ state ∈ Model.allStates verified.counterexamples, state.IsUnreadable) →
    items = [] ∧ ∃ message,
      (verified.unreadable? = some message ∨
        ((verifyEverything services number).run session).1 = .error (.failed message)) ∧
      failuresOf counterexampleTag after.chronicle =
        failuresOf counterexampleTag
          ((verifyEverything services number).run session).2.chronicle ++ [message]
  /-- Otherwise all states are shown and nothing is reported, unless the verification failed. -/
  readable : ∀ items after number verified,
    (serveCounterexamples services uri depth).run session = (.ok items, after) →
    after.canceled = false → session.IsFirstOwner uri number →
    after.HasVerifiedLatest number verified →
    (¬∃ state ∈ Model.allStates verified.counterexamples, state.IsUnreadable) →
    (∀ message, ((verifyEverything services number).run session).1 ≠ .error (.failed message)) →
    verified.IsShownBy depth items ∧ failuresOf counterexampleTag after.chronicle =
      failuresOf counterexampleTag ((verifyEverything services number).run session).2.chronicle
  /-- The verification reports nothing under the name of the request, unless the verifier
  does. -/
  verification : ∀ number,
    (∀ unit, SessionM.Withholds counterexampleTag (services.verify unit)) →
    failuresOf counterexampleTag
        ((verifyEverything services number).run session).2.chronicle =
      failuresOf counterexampleTag session.chronicle

/-- A request that is canceled from the start calls no service, whether or not there is a project
for it. -/
theorem Obtains.callsNoService_serveCounterexamples {session : Session}
    (obtains : session.Obtains) (canceled : session.canceled = true) (uri : String)
    (depth : Nat) :
    ∃ after, (∀ services, (serveCounterexamples services uri depth).run session =
        (.ok [], after)) ∧ session.CallsNoService after := by
  cases found : session.findProject? uri with
  | none =>
      rcases SessionM.run_serveCounterexamples_of_unknown depth found with ⟨lines, unknown⟩
      have quiet : session.StaysQuiet (session.enter (lines.map .logged)) :=
        .enter (by simp [Event.isQuiet, Event.callsService])
      exact ⟨_, unknown, quiet.callsNoService⟩
  | some number =>
      rcases SessionM.keepsVersion_serveCounterexamples depth canceled
        (obtains.concludes number) found with ⟨after, ran, keeps, _⟩
      exact ⟨after, ran, keeps.silent⟩

/-- Requests for counterexamples are answered in full or not at all. -/
theorem Obtains.servesCounterexamples {session : Session} (obtains : session.Obtains) {n : Nat}
    (plan : Plan (Step n)) (uri : String) (depth : Nat) :
    session.ServesCounterexamples (plan.services (Step.perform n)) uri depth := by
  have respect := SessionM.respect_services (isDiscipline_behaves none)
    (Step.behaves_perform n) plan
  -- What follows the verification finds a session in which everything is warranted.
  have arises (number : Nat) (outcome : Except Stop Unit) (middle : Session)
      (ran : (verifyEverything (plan.services (Step.perform n)) number).run session =
        (outcome, middle)) : middle.Arises := by
    have behaves := (SessionM.respects_verifyEverything respect.verify number session
      obtains.arises.occurs.isReachable.wellNumbered trivial).1
    rw [ran] at behaves
    exact obtains.arises.of_behaves behaves
  refine
    { neverFails := SessionM.neverFails_serveCounterexamples _ uri depth session
      answers := ?_
      canceled := fun canceled => obtains.callsNoService_serveCounterexamples canceled uri depth
      unreadable := ?_, readable := ?_
      verification := fun number silent =>
        SessionM.withholds_verifyEverything silent (by decide) number session }
  · intro items after ran
    cases found : session.findProject? uri with
    | none =>
        rcases SessionM.run_serveCounterexamples_of_unknown depth found with ⟨lines, unknown⟩
        rw [unknown] at ran
        cases ran
        exact Or.inl rfl
    | some number =>
        rcases (SessionM.served_of_run found ran).answers (arises number) with
          nothing | ⟨verified, has, shows⟩
        · exact Or.inl nothing
        · exact Or.inr ⟨number, verified, findProject?_eq_some_iff.mp found, has, shows⟩
  · intro items after number verified ran notCanceled owns has isUnreadable
    have served := SessionM.served_of_run (findProject?_eq_some_iff.mpr owns) ran
    exact served.reports_of_isUnreadable (arises number) notCanceled has isUnreadable
  · intro items after number verified ran notCanceled owns has isReadable notFailed
    have served := SessionM.served_of_run (findProject?_eq_some_iff.mpr owns) ran
    exact served.shows_of_not_isUnreadable (arises number) notCanceled has isReadable notFailed

end Session

/-- The plan of a verifier that finds a counterexample of two states: the initial one, and one
with a name. -/
def Plan.sampleTrace {σ : Type} (name : String) : Plan σ :=
  { Plan.succeeding (some (.sampleModule 1)) with
    verify := fun _ => { reply := { status := .failed, models := [{ states :=
      [{ name := StateName.initial, bindings := [] }, { name, bindings := [] }] }] } } }

/-- The steps that open the sample project, load it and verify it under that plan. -/
def Step.sampleTrace (name : String) : List (Step 0) :=
  let plan : Plan Empty := .sampleTrace name
  [{ request := .openProject .sample, plan }, { request := .update 0 .sample, plan },
    { request := .verify 0, plan }]

namespace Session

open SessionM (serveCounterexamples counterexampleTag)

/-- The session after these steps. -/
def traced (name : String) : Session :=
  (run {} 0 (Step.sampleTrace name)).2

/-- The counterexamples of its document. -/
def askTraced (name : String) : Except Stop (List Item) × Session :=
  (serveCounterexamples ((Plan.sampleTrace name).services (Step.perform 0)) "a" 0).run
    (traced name)

/-- The answer shows the one state of the trace that is not initial, at its position. If it has
no position the answer is empty, and that is reported. The verifier itself reports nothing. -/
theorem servesCounterexamples_sample :
    (traced "a(2,3)").ServesCounterexamples
        ((Plan.sampleTrace "a(2,3)").services (Step.perform 0)) "a" 0 ∧
      (askTraced "a(2,3)").1.toOption.map
        (fun items => items.map fun item => (item.line, item.character)) = some [(1, 3)] ∧
      failuresOf counterexampleTag (askTraced "a(2,3)").2.chronicle = [] ∧
      (askTraced "a").1.toOption.map List.length = some 0 ∧
      failuresOf counterexampleTag (askTraced "a").2.chronicle =
        ["model 0, state 'a': state name carries no (line,col) position"] ∧
      ∀ unit, SessionM.Withholds counterexampleTag
        (((Plan.sampleTrace "a").services (Step.perform 0)).verify unit) := by
  have obtains : (traced "a(2,3)").Obtains := obtains_run {} 0 _
  exact ⟨obtains.servesCounterexamples (.sampleTrace "a(2,3)") "a" 0, by decide +kernel,
    by decide +kernel, by decide +kernel, by decide +kernel,
    fun _ => SessionM.withholds_verify (by simp [Plan.sampleTrace])⟩

end Session

end Proofline
