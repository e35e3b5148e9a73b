import Proofline.Proofs.Updating

/-!
# The conduct of verification

A verification marks its version and calls the verifier for one pending unit after the
other. Meanwhile the manager is held: whatever the verifier does, the next snapshot goes
on from the last one or is dropped. However a verification ends, if it comes back at all
it is not in progress any more: either it has taken the mark back, or the publisher has
failed and the attempt is abandoned.
-/

namespace Proofline

namespace SessionM

open Session (Knows Reached Keeps Behaves)

variable {α β : Type} {number : Nat}

section Closing

variable {fact : Session → Prop}

/-- Whether a fact holds of the session whenever an action fails with a message. -/
def FailsInto (fact : Session → Prop) (action : SessionM α) : Prop :=
  ∀ session message, (action.run session).1 = .error (.failed message) →
    fact (action.run session).2

/-- Whether a fact holds of the session whenever an action comes back to its caller. -/
def ComesBackInto (fact : Session → Prop) (action : SessionM α) : Prop :=
  ∀ session, Session.cameBack (action.run session).1 = true → fact (action.run session).2

theorem FailsInto.bind {action : SessionM α} {next : α → SessionM β}
    (first : FailsInto fact action) (rest : ∀ value, FailsInto fact (next value)) :
    FailsInto fact (action >>= next) := by
  intro session message failed
  rw [run_bind] at failed ⊢
  rcases ran : action.run session with ⟨outcome, after⟩
  rw [ran] at failed
  cases outcome with
  | ok value => exact rest value after message failed
  | error stop =>
      have last := first session message
      rw [ran] at last
      obtain rfl : stop = .failed message := by simpa using failed
      exact last rfl

/-- An action that does not fail with a message. -/
theorem FailsInto.of_never {action : SessionM α}
    (never : ∀ session message, (action.run session).1 ≠ .error (.failed message)) :
    FailsInto fact action :=
  fun session message failed => absurd failed (never session message)

theorem FailsInto.pure (value : α) : FailsInto fact (Pure.pure value : SessionM α) :=
  .of_never fun _ _ => by simp

theorem ComesBackInto.bind {action : SessionM α} {next : α → SessionM β}
    (first : FailsInto fact action)
    (rest : ∀ session value after, action.run session = (.ok value, after) →
      ComesBackInto fact (next value)) :
    ComesBackInto fact (action >>= next) := by
  intro session back
  rw [run_bind] at back ⊢
  rcases ran : action.run session with ⟨outcome, after⟩
  rw [ran] at back
  cases outcome with
  | ok value => exact rest session value after ran after back
  | error stop =>
      cases stop with
      | failed message =>
          have last := first session message
          rw [ran] at last
          exact last rfl
      | stuck => contradiction
      | misused => contradiction

/-- When the publisher fails at a verified snapshot, no verification of its version is in
progress any more. -/
theorem failsInto_publish (verified : Verified) :
    FailsInto
      (fun session => ¬session.HasAttempted number verified.compilation.version .inProgress)
      (publish number (.verified verified)) := by
  intro session message failed
  by_cases stale : (Snapshot.verified verified).Precedes (session.manager number).latest
  · rcases run_publish_of_precedes stale with ⟨lines, ran⟩
    simp [ran] at failed
  rcases run_publish_of_not_precedes stale with ⟨publications, _, ends, acted, _⟩
  rw [ends, publisherOutcome] at failed
  cases found : publications.findSome? Publication.failure with
  | none => simp [found] at failed
  | some reason =>
      rcases List.exists_of_findSome?_eq_some found with ⟨publication, mem, isFailure⟩
      rcases List.append_of_mem mem with ⟨former, latter, rfl⟩
      have latest : ((session.change number (.accepted (.verified verified))).manager
          number).latest = .verified verified := by
        simp [Manager.after]
      rw [Session.HasAttempted, acted.chronicle_eq]
      generalize session.change number (.accepted (.verified verified)) = accepted at latest
      let entry (published : Publication) : ChronicleEntry :=
        ⟨accepted.depth, accepted.managers, .published number published⟩
      have closed : newestAttempt number (accepted.chronicle ++ former.map entry ++
            entry publication :: latter.map entry) ≠
          some { version := ((entry publication).latest number).version } :=
        not_inProgress_of_failure (by simp [entry, Event.publisherFailure?, isFailure])
          (congrArg Snapshot.stage latest) (by simp [entry, Event.beginsVerification])
      have version : ((entry publication).latest number).version =
          verified.compilation.version := congrArg Snapshot.version latest
      rw [version] at closed
      simpa [entry, Session.enter, Function.comp_def] using closed

theorem failsInto_verifyUnit (services : Services) (version : Int) (unit : Declaration) :
    FailsInto fact (verifyUnit services number version unit) := by
  refine FailsInto.bind (.of_never fun _ _ => by simp) fun _ => ?_
  refine FailsInto.bind (.of_never (neverFails_attempt _)) fun result => ?_
  cases result with
  | ok outcome => exact .pure outcome
  | error message => exact .bind (.of_never fun _ _ => by simp [reportFailure]) fun _ => .pure _

theorem failsInto_verifyUnits (services : Services) (units : List Declaration)
    (verified : Verified) :
    FailsInto
      (fun session => ¬session.HasAttempted number verified.compilation.version .inProgress)
      (verifyUnits services number verified.compilation.version units verified) := by
  induction units generalizing verified with
  | nil => exact .pure (some verified)
  | cons unit rest ih =>
      refine FailsInto.bind (.of_never fun _ _ => by simp) fun canceled => ?_
      split
      · exact .pure (some verified)
      split
      · exact ih verified
      refine FailsInto.bind (failsInto_verifyUnit services _ unit) fun outcome => ?_
      refine FailsInto.bind (.of_never fun _ _ => by simp) fun canceled => ?_
      split
      · exact .pure (some verified)
      apply FailsInto.bind (failsInto_publish (verified.withResult unit outcome))
      intro accepted
      split
      · exact ih (verified.withResult unit outcome)
      · exact .pure none

end Closing

section Verification

variable {services : Services} (respects : ∀ unit, Respects (Behaves none) (services.verify unit))

include respects

/-- While the verifier is called for a unit, the manager is held. -/
theorem meets_verifyUnit {kept : Manager} {verified : Verified} {unit : Declaration}
    (latest : kept.latest = .verified verified)
    (verifying : kept.verifying = some verified.compilation.version)
    (mem : unit ∈ verified.resolved.units) (pending : unit.key ∉ verified.results) :
    Meets (Behaves (some number)) (fun session => session.manager number = kept)
      (verifyUnit services number verified.compilation.version unit)
      fun _ => Keeps number kept := by
  have held : kept.IsHeld := by
    refine Or.inr ⟨?_, ?_⟩
    · rw [latest]
      rfl
    · rw [latest, verifying]
      rfl
  have stable := isStable_keeps number held
  have discipline := isDiscipline_behaves (some number)
  have acting := fun back before after (behaves : Behaves none back before after) =>
    behaves.acting_of_none (some number)
  have recording : Meets (Behaves (some number)) (fun session => session.manager number = kept)
      (record (.verifying number verified.compilation.version unit))
      fun _ => Keeps number kept := by
    intro session _ same
    have known : session.Knows number := Session.knows_of_isHeld (same ▸ held)
    refine ⟨.enter_verifying ?_, fun _ _ => .of_eq known same⟩
    exact ⟨(congrArg Manager.verifying same).trans verifying, verified,
      (congrArg Manager.latest same).trans latest, rfl, mem, pending⟩
  apply Meets.bind discipline recording
  intro _
  apply Meets.bind discipline (((Respects.attempt (respects unit)).keep stable).mono acting)
  intro result
  cases result with
  | ok outcome => exact Meets.pure discipline fun _ => id
  | error message =>
      refine Meets.bind discipline (((respects_reportFailure (isDiscipline_behaves none) _ _).keep
        stable).mono acting) fun _ => Meets.pure discipline fun _ => id

omit respects in
theorem reached_of_verified {kept : Manager} {verified : Verified}
    (latest : kept.latest = .verified verified) {session : Session}
    (same : session.manager number = kept) :
    session.Reached number verified.compilation.version := by
  constructor
  · apply Session.knows_of_stage_ne
    rw [same, latest]
    simp [Snapshot.stage]
  · rw [same, latest]
    exact Int.le_refl _

omit respects in
theorem isStable_hasSeen {relation : Bool → Session → Session → Prop}
    (discipline : IsDiscipline relation) (number : Nat) (snapshot : Snapshot) :
    IsStable relation fun session => HasSeen number snapshot session.chronicle :=
  isStable_chronicle discipline fun _ later seen => seen.append later

/-- Whether a verified snapshot of a version is the latest one of a manager only if it is the
last one of its verification. -/
def IsLast (number : Nat) (version : Int) (last : Option Verified) (session : Session) : Prop :=
  ∀ shown, (session.manager number).latest = .verified shown →
    shown.compilation.version = version → last = some shown

omit respects in
theorem isLast_of_eq {version : Int} {verified : Verified} {session : Session}
    (latest : (session.manager number).latest.version = version →
      (session.manager number).latest = .verified verified) :
    IsLast number version (some verified) session := by
  intro shown isShown same
  rw [isShown] at latest
  rw [Snapshot.verified.inj (latest same)]

omit respects in
/-- When a manager has come to a newer version, no snapshot of the older one is shown. -/
theorem isLast_none_of_lt {version : Int} {session : Session}
    (newer : version < (session.manager number).latest.version) :
    IsLast number version none session := by
  intro shown isShown same
  rw [isShown] at newer
  exact absurd same (Int.ne_of_gt newer)

/-- Verifying units never leaves the resolved version it began with, and ends with a snapshot
that was accepted. -/
theorem meets_verifyUnits (units : List Declaration) {kept : Manager} {verified : Verified}
    (latest : kept.latest = .verified verified)
    (verifying : kept.verifying = some verified.compilation.version)
    (among : ∀ unit ∈ units, unit ∈ verified.resolved.units) :
    Meets (Behaves (some number))
      (fun session => session.manager number = kept ∧
        HasSeen number (.verified verified) session.chronicle)
      (verifyUnits services number verified.compilation.version units verified)
      fun last session => session.Reached number verified.compilation.version ∧
        IsLast number verified.compilation.version last session ∧
        ∀ reached, last = some reached → reached.resolved = verified.resolved ∧
          HasSeen number (.verified reached) session.chronicle := by
  have discipline := isDiscipline_behaves (some number)
  -- Over the units still to come: the manager has `verified` as its latest snapshot.
  induction units generalizing verified kept with
  | nil =>
      apply Meets.pure discipline
      rintro session ⟨same, seen⟩
      refine ⟨reached_of_verified latest same, isLast_of_eq fun _ => same ▸ latest, ?_⟩
      rintro _ ⟨⟩
      exact ⟨rfl, seen⟩
  | cons unit rest ih =>
      apply Meets.bind discipline (Meets.read discipline Session.canceled fun _ => rfl)
      intro canceled
      split
      · apply Meets.pure discipline
        rintro session ⟨⟨same, seen⟩, _⟩
        refine ⟨reached_of_verified latest same, isLast_of_eq fun _ => same ▸ latest, ?_⟩
        rintro _ ⟨⟩
        exact ⟨rfl, seen⟩
      split
      · exact (ih latest verifying fun other mem => among other (by simp [mem])).imp
          (fun _ => And.left) fun _ _ => id
      rename_i pending
      have version : kept.latest.version = verified.compilation.version :=
        congrArg Snapshot.version latest
      have mem := among unit (by simp)
      have calling : Meets (Behaves (some number))
          (fun session => session.manager number = kept ∧
            HasSeen number (.verified verified) session.chronicle)
          (verifyUnit services number verified.compilation.version unit) _ :=
        ((meets_verifyUnit respects latest verifying mem pending).imp (fun _ => And.left)
          fun _ _ => id).and_keep (isStable_hasSeen discipline number _) fun _ => And.right
      apply Meets.bind discipline (calling.imp (fun _ => And.left) fun _ _ => id)
      intro outcome
      apply Meets.bind discipline (Meets.read discipline Session.canceled fun _ => rfl)
      intro canceled
      split
      · apply Meets.pure discipline
        rintro session ⟨⟨keeps, seen⟩, _⟩
        refine ⟨version ▸ keeps.reached, isLast_of_eq fun current => ?_, ?_⟩
        · rw [keeps.same (current.trans version.symm), latest]
        rintro _ ⟨⟩
        exact ⟨rfl, seen⟩
      have publishing : Meets (Behaves (some number)) (Keeps number kept)
          (publish number (.verified (verified.withResult unit outcome))) _ :=
        meets_publish_of_keeps (fun _ => id) version.symm (by rw [latest]; exact Nat.le_refl _)
          (fun _ => latest ▸ .withResult verified outcome mem pending) (fun _ _ _ => trivial)
          fun _ => Manager.upholds_accepted nofun (by rintro _ ⟨⟩; exact verifying)
      apply Meets.bind discipline (publishing.imp (fun _ pre => pre.1.1) fun _ _ => id)
      intro accepted
      cases accepted with
      | false =>
          apply Meets.pure discipline
          intro session ⟨reached, _, dropped⟩
          exact ⟨version ▸ reached, isLast_none_of_lt (version ▸ dropped rfl), nofun⟩
      | true =>
          have nextLatest : (kept.after (.accepted (.verified
              (verified.withResult unit outcome)))).latest =
                .verified (verified.withResult unit outcome) := rfl
          exact (ih nextLatest verifying fun other mem => among other (by simp [mem])).imp
            (fun _ post => post.2.1 rfl) fun _ _ => id

omit respects in
/-- A verification that comes to its end settles its version at the moment at which it is
complete and not being verified any more. -/
theorem meets_finishVerification (version : Int) {last : Option Verified}
    (same : ∀ verified, last = some verified → verified.compilation.version = version) :
    Meets (Behaves (some number))
      (fun session => session.Reached number version ∧ IsLast number version last session ∧
        ∀ verified, last = some verified → HasSeen number (.verified verified) session.chronicle)
      (finishVerification number version last) fun _ _ => True := by
  intro session _ ⟨reached, isLast, seen⟩
  refine ⟨?_, fun _ _ => trivial⟩
  rw [finishVerification, run_bind, run_change]
  simp only
  cases filtered : last.filter Verified.complete with
  | none =>
      refine Behaves.change reached.1 trivial (fun _ => rfl) (fun _ => trivial) (fun _ => rfl)
        (fun _ _ => rfl) (Manager.upholds_verificationEnded fun shown isShown isVersion => ?_)
      simpa using Option.filter_eq_none_iff.mp filtered shown (isLast shown isShown isVersion)
  | some verified =>
      rcases Option.filter_eq_some_iff.mp filtered with ⟨rfl, complete⟩
      simp only [run_bind, run_manager, run_log, run_change]
      exact .finish reached.1 complete (same verified rfl) reached.2 (seen verified rfl) _

/-- Whether a manager has come to a version, with the snapshot from which its verification
begins as the latest one if there is such a snapshot. -/
structure HasBegun (number : Nat) (version : Int) (first : Option Verified) (session : Session) :
    Prop where
  reached : session.Reached number version
  latest : ∀ verified, first = some verified →
    (session.manager number).latest = .verified verified ∧
      (session.manager number).verifying = some verified.compilation.version ∧
      verified.compilation.version = version ∧
      HasSeen number (.verified verified) session.chronicle
  isLast : IsLast number version first session

/-- Verify a version from the snapshot from which its verification begins. -/
def verifyFrom (services : Services) (number : Nat) (version : Int) :
    Option Verified → SessionM Unit
  | none => finishVerification number version none
  | some verified => do
      let last ← verifyUnits services number version verified.resolved.units verified
      finishVerification number version last

omit respects in
theorem runVerification_eq (version : Int) (begin : SessionM (Option Verified)) :
    runVerification services number version begin = (do
      SessionM.change number (.verificationBegun version)
      verifyFrom services number version (← begin)) := by
  rfl

theorem meets_verifyFrom (version : Int) (first : Option Verified) :
    Meets (Behaves (some number)) (HasBegun number version first)
      (verifyFrom services number version first) fun _ _ => True := by
  cases first with
  | none =>
      exact (meets_finishVerification version (by simp)).imp
        (fun _ begun => ⟨begun.reached, begun.isLast, by simp⟩) fun _ _ => id
  | some verified =>
      intro session wellNumbered begun
      obtain ⟨latest, verifying, rfl, seen⟩ := begun.latest verified rfl
      suffices carried : Meets (Behaves (some number))
          (fun s => s.manager number = session.manager number ∧
            HasSeen number (.verified verified) s.chronicle)
          (verifyFrom services number verified.compilation.version (some verified))
          fun _ _ => True from carried session wellNumbered ⟨rfl, seen⟩
      refine Meets.bind (isDiscipline_behaves (some number))
        (meets_verifyUnits respects verified.resolved.units latest verifying fun _ => id)
        fun last => ?_
      intro after afterNumbered ⟨reached, isLast, kept⟩
      refine meets_finishVerification _ ?_ after afterNumbered
        ⟨reached, isLast, fun final isFinal => (kept final isFinal).2⟩
      intro final isFinal
      rw [Verified.compilation, (kept final isFinal).1]
      rfl

omit respects in
/-- When the verification of a version has ended, it is not in progress any more. -/
theorem comesBackInto_finishVerification (version : Int) (last : Option Verified) :
    ComesBackInto (fun session => ¬session.HasAttempted number version .inProgress)
      (finishVerification number version last) := by
  intro session _
  have ended (later : List ChronicleEntry)
      (continues : ∀ entry ∈ later, entry.event.beginsVerification number = false) :
      newestAttempt number ((session.change number (.verificationEnded version)).chronicle ++
        later) ≠ some { version } := by
    rw [Session.change, Session.enter, List.append_assoc]
    exact not_inProgress_of_ended rfl continues
  rw [finishVerification, run_bind, run_change]
  simp only
  cases last.filter Verified.complete with
  | none => simpa [Session.HasAttempted] using ended []
  | some verified =>
      simp only [run_bind, run_manager, run_log, run_change]
      rw [Session.HasAttempted, Session.change, Session.enter, Session.enter, List.append_assoc]
      apply ended
      intro entry mem
      rcases List.mem_append.mp mem with isLogged | isVerified
      · rcases List.mem_map.mp isLogged with ⟨_, isLine, rfl⟩
        rcases List.mem_map.mp isLine with ⟨_, _, rfl⟩
        rfl
      · obtain rfl := List.mem_singleton.mp isVerified
        rfl

omit respects in
/-- When the verification of a version comes back, it is not in progress any more. -/
theorem comesBackInto_verifyFrom (services : Services) {version : Int} (first : Option Verified)
    (same : ∀ verified, first = some verified → verified.compilation.version = version) :
    ComesBackInto (fun session => ¬session.HasAttempted number version .inProgress)
      (verifyFrom services number version first) := by
  cases first with
  | none => exact comesBackInto_finishVerification version none
  | some verified =>
      obtain rfl := same verified rfl
      exact .bind (failsInto_verifyUnits services _ verified) fun _ last _ _ =>
        comesBackInto_finishVerification _ last

/-- A verification that a manager allows, from a snapshot that its first action brings
about. -/
theorem behaves_runVerification {version : Int} {begin : SessionM (Option Verified)}
    {session : Session} (wellNumbered : session.WellNumbered) (known : session.Knows number)
    (allowed : (session.manager number).Allows (.verificationBegun version))
    (begins : Meets (Behaves (some number))
      (fun marked => marked.manager number =
          (session.manager number).after (.verificationBegun version) ∧
        HasSeen number (session.manager number).latest marked.chronicle)
      begin (HasBegun number version))
    (fails : FailsInto (fun session => ¬session.HasAttempted number version .inProgress) begin)
    (returns : ∀ session first after, begin.run session = (.ok first, after) →
      ∀ verified, first = some verified → verified.compilation.version = version) :
    session.Behaves (some number)
      (Session.cameBack ((runVerification services number version begin).run session).1)
      ((runVerification services number version begin).run session).2 := by
  have marked := Session.Unfolds.change known allowed fun _ => rfl
  have records : session.Records (session.change number (.verificationBegun version)) :=
    .change fun _ => trivial
  have seen : HasSeen number (session.manager number).latest
      (session.change number (.verificationBegun version)).chronicle := by
    refine ⟨_, List.mem_append_right _ (List.mem_singleton_self _), ?_⟩
    simp [ChronicleEntry.latest, Manager.after]
  have rest := (Meets.bind (isDiscipline_behaves (some number)) begins
    (meets_verifyFrom respects version) _ (marked.evolves.wellNumbered wellNumbered)
    ⟨session.manager_change_self number _, seen⟩).1
  have closes := ComesBackInto.bind fails
    (fun session first after ran =>
      comesBackInto_verifyFrom services first (returns session first after ran))
    (session.change number (.verificationBegun version))
  rw [runVerification_eq, run_bind, run_change]
  simp only
  have upholds : (session.manager number).Upholds (updatesInProgress number session.chronicle)
      (.verificationBegun version) := Manager.upholds_verificationBegun allowed.1
  refine
    { unfolds := marked.trans rest.unfolds, records := records.trans rest.records,
      steady := ?_, unwinds := ?_, attends := ?_, concludes := ?_,
      names := fun names => rest.names (names.change number _) }
  · intro other ne
    have steady : session.Steady other (session.change number (.verificationBegun version)) :=
      ⟨marked.evolves, fun _ _ =>
        session.manager_change_of_ne (fun same => ne (congrArg some same)) _⟩
    exact steady.trans (rest.steady other ne)
  · intro isBack other attempted inProgress
    have wasInProgress : newestAttempt other (session.chronicle ++ [_]) = some ⟨attempted, _⟩ :=
      rest.unwinds isBack inProgress
    by_cases same : other = number
    · subst same
      rw [newestAttempt_append_singleton] at wasInProgress
      obtain rfl : version = attempted := by
        simpa [ChronicleEntry.attemptAfter] using wasInProgress
      exact absurd inProgress (closes isBack)
    · refine inProgress_of_append ?_ wasInProgress rfl
      intro entry mem
      obtain rfl := List.mem_singleton.mp mem
      simpa [Event.beginsVerification] using Ne.symm same
  · intro other
    exact .trans (.change marked.evolves (fun _ _ => rfl) upholds.attended) (rest.attends other)
  · intro other concludes
    exact rest.concludes other (Behaves.concludes_change upholds.concludes other concludes)

omit respects in
theorem meets_startVerification {base : Resolved} {kept : Manager}
    (known : ∀ session : Session, session.manager number = kept → session.Knows number)
    (latest : kept.latest = .resolved base)
    (verifying : kept.verifying = some base.compilation.version) :
    Meets (Behaves (some number)) (fun session => session.manager number = kept)
      (startVerification number base) (HasBegun number base.compilation.version) := by
  have discipline := isDiscipline_behaves (some number)
  have version : kept.latest.version = base.compilation.version :=
    congrArg Snapshot.version latest
  have publishing : Meets (Behaves (some number)) (fun session => session.manager number = kept)
      (publish number (.verified (.start base))) _ :=
    meets_publish_of_keeps (fun session same => .of_eq (known session same) same) version.symm
      (by rw [latest]; exact Nat.le_succ _)
      (fun _ => latest ▸ .start base) (fun _ _ _ => trivial)
      fun _ => Manager.upholds_accepted nofun (by rintro _ ⟨⟩; exact verifying)
  apply Meets.bind discipline publishing
  intro accepted
  cases accepted with
  | false =>
      apply Meets.pure discipline
      intro session ⟨reached, _, dropped⟩
      exact ⟨version ▸ reached, nofun, isLast_none_of_lt (version ▸ dropped rfl)⟩
  | true =>
      apply Meets.pure discipline
      intro session ⟨reached, taken, _⟩
      have isStarted := (taken rfl).1
      refine ⟨version ▸ reached, ?_, isLast_of_eq fun _ => isStarted ▸ rfl⟩
      rintro _ ⟨⟩
      rw [isStarted]
      exact ⟨rfl, verifying, rfl, (taken rfl).2⟩

omit respects in
theorem failsInto_startVerification (base : Resolved) :
    FailsInto (fun session => ¬session.HasAttempted number base.compilation.version .inProgress)
      (startVerification number base) := by
  apply FailsInto.bind (failsInto_publish (Verified.start base))
  intro accepted
  split
  · exact .pure (some (Verified.start base))
  · exact .pure none

omit respects in
/-- A verification that is started begins without results. -/
theorem eq_start_of_startVerification {base : Resolved} {session after : Session}
    {first : Option Verified}
    (ran : (startVerification number base).run session = (.ok first, after)) {verified : Verified}
    (isFirst : first = some verified) : verified = .start base := by
  subst isFirst
  rw [startVerification, run_bind] at ran
  split at ran
  · split at ran
    · cases ran
      rfl
    · cases ran
  · cases ran

omit respects in
theorem isReady_of_resolved {manager : Manager}
    (resolved : Stage.resolved.rank ≤ manager.latest.stage.rank) : manager.isReady = true := by
  simp [Manager.isReady, resolved]

omit respects in
/-- A version that is settled or being verified is not verified. -/
theorem run_verifyEverything_of_refuses {session : Session}
    (ready : (session.manager number).isReady = true)
    (refuses : (session.manager number).Refuses (session.manager number).latest.version) :
    (verifyEverything services number).run session = (.ok (), session) := by
  have blocked : (session.manager number).latest.version ≤ (session.manager number).settled ∨
      (session.manager number).verifying = some (session.manager number).latest.version := refuses
  simp only [verifyEverything, waitUntil, run_bind, run_manager, ready, if_true, run_pure,
    if_pos blocked]

omit respects in
/-- Any other version is verified if it is resolved. -/
theorem run_verifyEverything_of_accepts {session : Session}
    (ready : (session.manager number).isReady = true)
    (accepts : ¬(session.manager number).Refuses (session.manager number).latest.version) :
    (verifyEverything services number).run session =
      (match (session.manager number).latest with
        | .unloaded _ | .parsed _ => return ()
        | .resolved base => runVerification services number base.compilation.version
            (startVerification number base)
        | .verified partly => runVerification services number partly.compilation.version
            (return some partly)).run session := by
  have isOpen : ¬((session.manager number).latest.version ≤ (session.manager number).settled ∨
      (session.manager number).verifying = some (session.manager number).latest.version) :=
    accepts
  simp only [verifyEverything, waitUntil, run_bind, run_manager, ready, if_true, run_pure,
    if_neg isOpen]
  cases (session.manager number).latest <;> rfl

omit respects in
/-- Verifying leaves the session as it is, or runs the verification of a resolved version
that is not refused. -/
theorem run_verifyEverything_cases (services : Services) (number : Nat) (session : Session) :
    ((verifyEverything services number).run session).2 = session ∨
      ¬(session.manager number).Refuses (session.manager number).latest.version ∧
      ((∃ base, (session.manager number).latest = .resolved base ∧
          (verifyEverything services number).run session =
            (runVerification services number base.compilation.version
              (startVerification number base)).run session) ∨
        ∃ partly, (session.manager number).latest = .verified partly ∧
          (verifyEverything services number).run session =
            (runVerification services number partly.compilation.version
              (return some partly)).run session) := by
  cases ready : (session.manager number).isReady with
  | false =>
      left
      simp only [verifyEverything, waitUntil, run_bind, run_manager, ready, Bool.false_eq_true,
        if_false, run_isCanceled]
      cases session.canceled <;> rfl
  | true =>
      by_cases refuses : (session.manager number).Refuses (session.manager number).latest.version
      · rw [run_verifyEverything_of_refuses ready refuses]
        exact Or.inl rfl
      · rw [run_verifyEverything_of_accepts ready refuses]
        cases latest : (session.manager number).latest with
        | unloaded | parsed => exact Or.inl rfl
        | resolved base => exact Or.inr ⟨latest ▸ refuses, Or.inl ⟨base, rfl, rfl⟩⟩
        | verified partly => exact Or.inr ⟨latest ▸ refuses, Or.inr ⟨partly, rfl, rfl⟩⟩

/-- Verification respects what its services respect, and leaves a manager alone whose latest
version is held. -/
theorem respects_verifyEverything (number : Nat) :
    Respects (Behaves none) (verifyEverything services number) := by
  intro session wellNumbered _
  refine ⟨?_, fun _ _ => trivial⟩
  rcases run_verifyEverything_cases services number session with
    same | ⟨accepts, resolved⟩
  · rw [same]
    exact (isDiscipline_behaves none).refl _ session
  have unrefused := Manager.not_refuses_iff.mp accepts
  -- A manager that is held refuses to verify its version, or has not resolved it.
  have notHeld : ¬(session.manager number).IsHeld := by
    rintro (parsed | ⟨_, verifying⟩)
    · rcases resolved with ⟨base, latest, _⟩ | ⟨partly, latest, _⟩
      · simp [latest, Snapshot.stage] at parsed
      · simp [latest, Snapshot.stage] at parsed
    · exact unrefused.2 verifying
  have known : session.Knows number := by
    apply Session.knows_of_stage_ne
    rcases resolved with ⟨base, latest, _⟩ | ⟨partly, latest, _⟩
    · simp [latest, Snapshot.stage]
    · simp [latest, Snapshot.stage]
  refine Behaves.none_of_acting ?_ fun held => absurd held notHeld
  rcases resolved with ⟨base, latest, ran⟩ | ⟨partly, latest, ran⟩
  · rw [ran]
    rw [latest] at unrefused
    have allowed : (session.manager number).Allows
        (.verificationBegun base.compilation.version) :=
      ⟨by rw [latest]; rfl, by simp [latest, Snapshot.stage, Stage.rank], unrefused⟩
    have starting : Meets (Behaves (some number))
        (fun marked => marked.manager number =
          (session.manager number).after (.verificationBegun base.compilation.version))
        (startVerification number base) (HasBegun number base.compilation.version) := by
      refine meets_startVerification (fun marked same => ?_) latest rfl
      apply Session.knows_of_stage_ne
      simp [same, Manager.after, latest, Snapshot.stage]
    refine behaves_runVerification respects wellNumbered known allowed
      (starting.imp (fun _ => And.left) fun _ _ => id)
      (failsInto_startVerification base) fun _ _ _ ran verified isFirst => ?_
    rw [eq_start_of_startVerification ran isFirst]
    rfl
  · rw [ran]
    rw [latest] at unrefused
    have allowed : (session.manager number).Allows
        (.verificationBegun partly.compilation.version) :=
      ⟨by rw [latest]; rfl, by simp [latest, Snapshot.stage, Stage.rank], unrefused⟩
    refine behaves_runVerification respects wellNumbered known allowed
      (Meets.pure (isDiscipline_behaves _) fun marked begun => ?_) (.pure _) ?_
    · rcases begun with ⟨same, seen⟩
      have markedLatest : (marked.manager number).latest = .verified partly := by
        rw [same]
        exact latest
      refine ⟨reached_of_verified markedLatest rfl, ?_, isLast_of_eq fun _ => markedLatest⟩
      rintro _ ⟨⟩
      exact ⟨markedLatest, by rw [same]; rfl, rfl, latest ▸ seen⟩
    · rintro _ _ _ ⟨⟩ _ ⟨⟩
      rfl

end Verification

section Awaiting

variable {session : Session}

/-- Who awaits a version that is settled gets what was verified in full of it, if anything. -/
theorem run_awaitVerified_of_isSettled
    (settled : (session.manager number).isSettled (session.manager number).latest.version = true) :
    (awaitVerified number).run session =
      (.ok ((session.manager number).lastVerified.filter fun verified =>
        (session.manager number).latest.version ≤ verified.compilation.version), session) := by
  simp only [awaitVerified, waitUntil, run_bind, run_manager, settled, if_true, run_pure]

/-- Nobody can wait for any other version. -/
theorem run_awaitVerified_of_not_isSettled
    (unsettled : (session.manager number).isSettled (session.manager number).latest.version =
      false) :
    (awaitVerified number).run session =
      (if session.canceled then .ok none else .error .stuck, session) := by
  cases canceled : session.canceled with
  | true | false =>
      simp [awaitVerified, waitUntil, run_bind, unsettled, canceled]

end Awaiting

end SessionM

end Proofline
