import Proofline.Proofs.Steadiness

/-!
# The conduct of updates

An update begins when its version is not older than the latest one, brings the
manager to the version at once, and settles it at most after that. Since the version
of the latest snapshot never decreases, what an update publishes later is either
dropped or goes on from where the update has brought the manager.
-/

namespace Proofline

namespace Session

/-- Whether a manager exists and has come to a version. -/
def Reached (number : Nat) (version : Int) (session : Session) : Prop :=
  session.Knows number ∧ version ≤ (session.manager number).latest.version

/-- Whether a manager has come to a version, and `origin` was the latest snapshot when the
update to it began. -/
def CameFrom (number : Nat) (version : Int) (origin : Snapshot) (session : Session) : Prop :=
  session.Reached number version ∧ UpdateBegan number version origin session.chronicle

/-- Whether a manager has come to a version by an update that began when `origin` was the
latest snapshot. -/
structure IsLoading (number : Nat) (version : Int) (origin : Snapshot) (session : Session) :
    Prop where
  reached : session.Reached number version
  began : UpdateBegan number version origin session.chronicle
  attending : version ∈ updatesInProgress number session.chronicle

/-- Whether a manager is in a certain state, or has come to a newer version since. -/
structure Keeps (number : Nat) (kept : Manager) (session : Session) : Prop where
  reached : session.Reached number kept.latest.version
  same : (session.manager number).latest.version = kept.latest.version →
    session.manager number = kept

theorem Keeps.of_eq {number : Nat} {kept : Manager} {session : Session}
    (known : session.Knows number) (same : session.manager number = kept) :
    session.Keeps number kept where
  reached := ⟨known, Int.le_of_eq (by rw [same])⟩
  same _ := same

end Session

variable {relation : Bool → Session → Session → Prop}

theorem isStable_reached (discipline : IsDiscipline relation) (number : Nat) (version : Int) :
    IsStable relation (Session.Reached number version) := by
  intro back before after related ⟨known, reached⟩
  have evolves := discipline.evolves related
  exact ⟨evolves.mem_managers known, Int.le_trans reached (evolves.version_le known)⟩

/-- Once a manager has come to the version, nothing that happens can obscure with which
snapshot its update began. -/
theorem isStable_cameFrom (discipline : IsDiscipline relation) (number : Nat) (version : Int)
    (origin : Snapshot) : IsStable relation (Session.CameFrom number version origin) := by
  intro back before after related ⟨reached, began⟩
  refine ⟨isStable_reached discipline number version back before after related reached, ?_⟩
  rcases (discipline.evolves related).history with ⟨entries, chronicleEq, history, _⟩
  rw [chronicleEq]
  exact began.append fun entry mem =>
    Or.inr (history.le_version_latest reached.1 reached.2 mem)

theorem isStable_isLoading (acting : Option Nat) (number : Nat) (version : Int)
    (origin : Snapshot) :
    IsStable (Session.Behaves acting) (Session.IsLoading number version origin) := by
  intro back before after behaves ⟨reached, began, attending⟩
  obtain ⟨stillReached, stillBegan⟩ := isStable_cameFrom (isDiscipline_behaves acting) number
    version origin back before after behaves ⟨reached, began⟩
  exact ⟨stillReached, stillBegan, (behaves.attends number).nests.subset attending⟩

/-- Services leave a manager alone whose latest version is held. -/
theorem isStable_keeps (number : Nat) {kept : Manager} (held : kept.IsHeld) :
    IsStable (Session.Behaves none) (Session.Keeps number kept) := by
  intro back before after behaves ⟨reached, same⟩
  have evolves := behaves.evolves
  refine ⟨isStable_reached (isDiscipline_behaves none) number _ back before after behaves
    reached, fun current => ?_⟩
  have still : (before.manager number).latest.version = kept.latest.version := by
    have grown := evolves.version_le reached.1
    have least := reached.2
    omega
  have isKept := same still
  have unchanged := (behaves.steady number (by simp)).steady (isKept ▸ held)
    (current.trans still.symm)
  exact unchanged.trans isKept

namespace SessionM

open Session (Knows Reached IsLoading Keeps Behaves)

variable {α : Type} {number : Nat}

section Publishing

/-- A snapshot that is accepted does not precede the latest one, and takes its place. -/
theorem behaves_publish (snapshot : Snapshot) {session : Session}
    (known : session.Knows number)
    (grounds : ¬snapshot.Precedes (session.manager number).latest →
      snapshot.HasGrounds number session.chronicle (session.manager number).latest)
    (warrant : session.KeepsJournals → snapshot.HasWarrant number session.options session.chronicle)
    (upholds : ¬snapshot.Precedes (session.manager number).latest →
      (session.manager number).Upholds (updatesInProgress number session.chronicle)
        (.accepted snapshot))
    (back : Bool) :
    session.Behaves (some number) back ((publish number snapshot).run session).2 ∧
      (((publish number snapshot).run session).1 = .ok true →
        ¬snapshot.Precedes (session.manager number).latest ∧
        ((publish number snapshot).run session).2.manager number =
          (session.manager number).after (.accepted snapshot) ∧
        HasSeen number snapshot ((publish number snapshot).run session).2.chronicle) ∧
      (((publish number snapshot).run session).1 = .ok false →
        snapshot.Precedes (session.manager number).latest ∧
        ((publish number snapshot).run session).2.manager number = session.manager number) := by
  by_cases stale : snapshot.Precedes (session.manager number).latest
  · rcases run_publish_of_precedes stale with ⟨lines, ran⟩
    rw [ran]
    exact ⟨.enter (by simp [Event.isIncidental]), by simp, fun _ => ⟨stale, rfl⟩⟩
  · rcases run_publish_of_not_precedes stale with ⟨publications, announces, ends, acted, _⟩
    refine ⟨?_, fun _ => ⟨stale, ?_, ?_⟩, fun dropped => ?_⟩
    · exact (Behaves.accept known stale announces (grounds stale) warrant (upholds stale)).trans
        (.of_publisherActed acted)
    · rw [acted.manager_eq]
      simp
    · rw [acted.chronicle_eq]
      refine ⟨_, List.mem_append_left _ (List.mem_append_right _ (List.mem_singleton_self _)), ?_⟩
      simp [ChronicleEntry.latest, Manager.after]
    · rw [ends, publisherOutcome] at dropped
      split at dropped <;> cases dropped

/-- A snapshot that is accepted is the latest one right afterwards, and one that is not
precedes it. -/
theorem meets_publish {snapshot : Snapshot} {pre : Session → Prop}
    (known : ∀ session, pre session → session.Knows number)
    (grounds : ∀ session, pre session →
      ¬snapshot.Precedes (session.manager number).latest →
        snapshot.HasGrounds number session.chronicle (session.manager number).latest)
    (warrant : ∀ session, pre session → session.KeepsJournals →
      snapshot.HasWarrant number session.options session.chronicle)
    (upholds : ∀ session, pre session → (session.manager number).Upholds
      (updatesInProgress number session.chronicle) (.accepted snapshot)) :
    Meets (Behaves (some number)) pre (publish number snapshot) fun accepted session =>
      session.Knows number ∧
        (accepted = true → (session.manager number).latest = snapshot) ∧
        (accepted = false → snapshot.Precedes (session.manager number).latest) := by
  intro session _ holds
  rcases behaves_publish snapshot (known session holds) (grounds session holds)
    (warrant session holds) (fun _ => upholds session holds) _ with ⟨behaves, taken, dropped⟩
  refine ⟨behaves, fun accepted ran => ⟨?_, ?_, ?_⟩⟩
  · exact behaves.evolves.mem_managers (known session holds)
  · rintro rfl
    rw [(taken ran).2.1]
    rfl
  · rintro rfl
    rcases dropped ran with ⟨precedes, same⟩
    rwa [same]

/-- A snapshot that takes a kept manager further is accepted only if the manager is as it was,
and dropped only if the manager has come to a newer version. -/
theorem meets_publish_of_keeps {snapshot : Snapshot} {kept : Manager} {pre : Session → Prop}
    (keeps : ∀ session, pre session → session.Keeps number kept)
    (version : snapshot.version = kept.latest.version)
    (further : kept.latest.stage.rank ≤ snapshot.stage.rank)
    (grounds : ∀ past, snapshot.HasGrounds number past kept.latest)
    (warrant : ∀ session, pre session → session.KeepsJournals →
      snapshot.HasWarrant number session.options session.chronicle)
    (upholds : ∀ updates, kept.Upholds updates (.accepted snapshot)) :
    Meets (Behaves (some number)) pre (publish number snapshot)
      fun accepted session => session.Reached number kept.latest.version ∧
        (accepted = true → session.manager number = kept.after (.accepted snapshot) ∧
          HasSeen number snapshot session.chronicle) ∧
        (accepted = false →
          kept.latest.version < (session.manager number).latest.version) := by
  intro session wellNumbered holds
  have keeps := keeps session holds
  have current (accepts : ¬snapshot.Precedes (session.manager number).latest) :
      session.manager number = kept := by
    apply keeps.same
    have least := keeps.reached.2
    unfold Snapshot.Precedes at accepts
    omega
  have known := keeps.reached.1
  rcases behaves_publish snapshot known
    (fun accepts => (current accepts).symm ▸ grounds session.chronicle) (warrant session holds)
    (fun accepts => (current accepts).symm ▸ upholds _) _ with ⟨behaves, taken, dropped⟩
  refine ⟨behaves, fun accepted ran => ⟨?_, ?_, ?_⟩⟩
  · exact isStable_reached (isDiscipline_behaves _) number _ _ _ _ behaves keeps.reached
  · rintro rfl
    rcases taken ran with ⟨accepts, same, seen⟩
    rw [same, current accepts]
    exact ⟨rfl, seen⟩
  · rintro rfl
    rcases dropped ran with ⟨newer | ⟨same, earlier⟩, unchanged⟩
    · rw [unchanged]
      exact version ▸ newer
    · rw [keeps.same (same.symm.trans version)] at earlier
      exact absurd further (Nat.not_le_of_lt earlier)

end Publishing

section Loading

variable {services : Services} (respect : services.Respect (Behaves none))

/-- Whether a version is settled, or a manager has come further than to parse it. -/
def IsConcluded (number : Nat) (version : Int) (session : Session) : Prop :=
  (session.manager number).latest.stage = .parsed →
    (session.manager number).latest.version = version →
      version ≤ (session.manager number).settled

/-- A version has been concluded when a snapshot of it that is parsed at least is dropped. -/
theorem isConcluded_of_precedes {snapshot : Snapshot}
    (loaded : Stage.parsed.rank ≤ snapshot.stage.rank) {session : Session}
    (dropped : snapshot.Precedes (session.manager number).latest) :
    IsConcluded number snapshot.version session := by
  intro parsed same
  rcases dropped with newer | ⟨_, further⟩
  · omega
  · rw [parsed] at further
    omega

/-- An update that gives its version up settles it. -/
theorem meets_giveUp (version : Int) (status : UpdateStatus) :
    Meets (Behaves (some number)) (Reached number version) (giveUp number version status)
      fun result session => IsConcluded number version session ∧ result = status := by
  intro session _ reached
  have behaves : session.Behaves (some number) true
      (session.change number (.gaveUp version status)) :=
    .change reached.1 reached.2 (fun _ => rfl) (fun _ => trivial) (fun _ => rfl) (fun _ _ => rfl)
      (Manager.upholds_gaveUp version status)
  refine ⟨behaves, ?_⟩
  rintro _ ⟨⟩
  refine ⟨fun _ _ => ?_, rfl⟩
  change version ≤ ((session.change number (.gaveUp version status)).manager number).settled
  rw [Session.manager_change_self]
  exact Int.le_max_right _ _

/-- Whether the latest snapshot of a manager is a resolved version of a parsed one, with
pending nodes in those of its trees that were not carried over. -/
def HasResolved (number : Nat) (parsed : Parsed) (migrated : ProgressTrees) (session : Session) :
    Prop :=
  ∃ resolved, (session.manager number).latest = .resolved resolved ∧ resolved.parsed = parsed ∧
    resolved.trees = Resolved.pendingTrees parsed migrated resolved.units

/-- What is left behind when resolving a parsed version has ended. -/
structure HasEnded (number : Nat) (parsed : Parsed) (migrated : ProgressTrees)
    (status : UpdateStatus) (session : Session) : Prop where
  concluded : IsConcluded number parsed.compilation.version session
  resolved : status = .resolved → HasResolved number parsed migrated session
  superseded : status = .superseded →
    parsed.compilation.version < (session.manager number).latest.version

theorem HasEnded.of_gaveUp {parsed : Parsed} {migrated : ProgressTrees} {status : UpdateStatus}
    (other : status ≠ .resolved ∧ status ≠ .superseded) (result : UpdateStatus)
    (session : Session)
    (ended : IsConcluded number parsed.compilation.version session ∧ result = status) :
    HasEnded number parsed migrated result session where
  concluded := ended.1
  resolved isResolved := absurd (ended.2.symm.trans isResolved) other.1
  superseded isSuperseded := absurd (ended.2.symm.trans isSuperseded) other.2

/-- A resolved version is published unless a newer version has come first. -/
theorem meets_publishResolved {kept : Manager} {resolved : Resolved} {migrated : ProgressTrees}
    (latest : kept.latest = .parsed resolved.parsed)
    (trees : resolved.trees = Resolved.pendingTrees resolved.parsed migrated resolved.units) :
    Meets (Behaves (some number))
      (fun session => session.Keeps number kept ∧
        session.HasJournal resolved.parsed.program.journal resolved.compilation.project ∧
        resolved.MatchesJournal number (.parsed resolved.parsed) session)
      (publish number (.resolved resolved) >>= fun accepted => Pure.pure (statusOf accepted))
      (HasEnded number resolved.parsed migrated) := by
  have version : (Snapshot.resolved resolved).version = kept.latest.version := by
    rw [latest]
    rfl
  apply Meets.bind (isDiscipline_behaves _) (meets_publish_of_keeps (fun _ post => post.1) version
    (by rw [latest]; exact Nat.le_succ _) (fun _ => ⟨latest, migrated, trees⟩)
    (fun _ post keeps => keeps.hasWarrant_resolved post.2.1 post.2.2)
    fun _ => Manager.upholds_accepted nofun nofun)
  intro accepted
  apply Meets.pure (isDiscipline_behaves _)
  intro session ⟨_, taken, dropped⟩
  cases accepted with
  | false =>
      have newer : resolved.parsed.compilation.version < (session.manager number).latest.version :=
        Int.lt_of_le_of_lt (Int.le_of_eq version) (dropped rfl)
      exact ⟨fun _ same => absurd same (Int.ne_of_gt newer), nofun, fun _ => newer⟩
  | true =>
      have isLatest : (session.manager number).latest = .resolved resolved := by
        rw [(taken rfl).1]
        rfl
      refine ⟨fun parsed => ?_, fun _ => ⟨resolved, isLatest, rfl, trees⟩, nofun⟩
      rw [isLatest] at parsed
      cases parsed

include respect

theorem meets_loadResolved (parsed : Parsed) (migrated : ProgressTrees) :
    Meets (Behaves (some number))
      (fun session => session.Knows number ∧
        (session.manager number).latest = .parsed parsed ∧
        session.HasJournal parsed.program.journal parsed.compilation.project)
      (loadResolved services number parsed migrated) (HasEnded number parsed migrated) := by
  intro session wellNumbered ⟨known, latest, opened⟩
  -- Services leave the manager as it is now, unless a newer version comes.
  have held : (session.manager number).IsHeld := Or.inl (by rw [latest]; rfl)
  have version : (session.manager number).latest.version = parsed.compilation.version :=
    congrArg Snapshot.version latest
  have stable := (isStable_keeps number held).and (isStable_hasJournal
    (isDiscipline_behaves none) parsed.program.journal parsed.compilation.project)
  have resolving : Meets (Behaves none)
      (fun after => (after.manager number).latest = .parsed parsed ∧
        after.Keeps number (session.manager number) ∧
        after.HasJournal parsed.program.journal parsed.compilation.project)
      (resolve services parsed migrated) _ :=
    ((meets_resolve (isDiscipline_behaves none) respect number _ parsed migrated).imp
      (fun _ => And.left) fun _ _ => id).and_keep stable fun _ => And.right
  suffices carried : Meets (Behaves (some number))
      (fun after => (after.manager number).latest = .parsed parsed ∧
        after.Keeps number (session.manager number) ∧
        after.HasJournal parsed.program.journal parsed.compilation.project)
      (loadResolved services number parsed migrated) (HasEnded number parsed migrated) from
    carried session wellNumbered ⟨latest, .of_eq known rfl, opened⟩
  apply Meets.bind (isDiscipline_behaves _)
    (resolving.mono fun _ _ _ behaves => behaves.acting_of_none (some number))
  intro result
  rcases result with (_ | _) | resolved
  · exact (meets_giveUp _ .canceled).imp (fun _ post => version ▸ post.2.1.reached)
      (HasEnded.of_gaveUp (by decide))
  · exact (meets_giveUp _ .parseErrors).imp (fun _ post => version ▸ post.2.1.reached)
      (HasEnded.of_gaveUp (by decide))
  · intro after afterNumbered ⟨isResolved, keeps, stillOpened⟩
    obtain ⟨rfl, trees, holds⟩ := isResolved resolved rfl
    exact meets_publishResolved latest trees after afterNumbered ⟨keeps, stillOpened, holds⟩

/-- Whether the latest snapshot of a manager is a resolved version that begins with the trees
carried over to it. -/
def HasLoaded (number : Nat) (compilation : Compilation) (migrated : ProgressTrees)
    (session : Session) : Prop :=
  ∃ parsed : Parsed, parsed.compilation = compilation ∧
    parsed.trees = Parsed.initialTrees compilation migrated ∧
    HasResolved number parsed migrated session

/-- A parsed version is published and resolved unless a newer version has come first. -/
theorem meets_publishParsed {parsed : Parsed} {origin : Snapshot} {migrated : ProgressTrees}
    (isMigrated : migrated = origin.trees.migrate parsed.compilation)
    (trees : parsed.trees = Parsed.initialTrees parsed.compilation migrated) :
    Meets (Behaves (some number))
      (fun session => IsLoading number parsed.compilation.version origin session ∧
        parsed.MatchesJournal session)
      (do
        if ← publish number (.parsed parsed) then
          loadResolved services number parsed migrated
        else
          return .superseded)
      fun status session => IsConcluded number parsed.compilation.version session ∧
        (status = .resolved → HasLoaded number parsed.compilation migrated session) := by
  have discipline := isDiscipline_behaves (some number)
  have publishing : Meets (Behaves (some number))
      (fun session => IsLoading number parsed.compilation.version origin session ∧
        parsed.MatchesJournal session)
      (publish number (.parsed parsed)) _ :=
    meets_publish (fun _ post => post.1.reached.1)
      (fun _ post _ => ⟨origin, post.1.began, isMigrated ▸ trees⟩)
      (fun _ post keeps => keeps.hasWarrant_parsed post.2)
      fun _ post => Manager.upholds_accepted (fun _ => post.1.attending) nofun
  apply Meets.bind discipline (publishing.and_keep
    (isStable_hasJournal discipline parsed.program.journal parsed.compilation.project)
    fun _ post => post.2.opened)
  intro accepted
  cases accepted with
  | false =>
      apply Meets.pure discipline
      intro session ⟨⟨_, _, dropped⟩, _⟩
      exact ⟨isConcluded_of_precedes (Nat.le_refl _) (dropped rfl), nofun⟩
  | true =>
      exact (meets_loadResolved respect parsed migrated).imp
        (fun _ post => ⟨post.1.1, post.1.2.1 rfl, post.2⟩)
        fun _ _ ended => ⟨ended.concluded,
          fun isResolved => ⟨parsed, rfl, trees, ended.resolved isResolved⟩⟩

theorem meets_loadStages (compilation : Compilation) (origin : Snapshot) :
    Meets (Behaves (some number)) (IsLoading number compilation.version origin)
      (loadStages services number compilation (origin.trees.migrate compilation))
      fun status session => IsConcluded number compilation.version session ∧
        (status = .resolved →
          HasLoaded number compilation (origin.trees.migrate compilation) session) := by
  have parsing := (meets_parse (isDiscipline_behaves none) respect compilation
    (origin.trees.migrate compilation)).anywhere.and_keep
      (isStable_isLoading none number compilation.version origin)
      fun _ => id
  apply Meets.bind (isDiscipline_behaves _)
    (parsing.mono fun _ _ _ behaves => behaves.acting_of_none (some number))
  intro result
  cases result with
  | error reason =>
      exact (meets_giveUp _ .canceled).imp (fun _ post => post.2.reached) fun _ _ ended =>
        ⟨ended.1, fun resolved => absurd (ended.2.symm.trans resolved) (by decide)⟩
  | ok parsed =>
      intro session wellNumbered ⟨isParsed, loading⟩
      obtain ⟨rfl, trees, holds⟩ := isParsed parsed rfl
      exact meets_publishParsed respect rfl trees session wellNumbered ⟨loading, holds⟩

theorem meets_loadOrGiveUp (compilation : Compilation) (origin : Snapshot) :
    Meets (Behaves (some number)) (IsLoading number compilation.version origin)
      (loadOrGiveUp services number compilation (origin.trees.migrate compilation))
      fun status session => IsConcluded number compilation.version session ∧
        (status = .resolved →
          HasLoaded number compilation (origin.trees.migrate compilation) session) := by
  have discipline := isDiscipline_behaves (some number)
  have stable := isStable_reached discipline number compilation.version
  have staging := (meets_loadStages respect compilation origin).attempt.and_keep stable
    fun _ loading => loading.reached
  apply Meets.bind discipline staging
  intro result
  cases result with
  | ok status => exact Meets.pure discipline fun _ post => post.1 status rfl
  | error message =>
      have reporting := (respects_reportFailure discipline "pipeline" message).keep stable
      refine Meets.bind discipline (reporting.imp (fun _ post => post.2) fun _ _ => id) fun _ => ?_
      exact (meets_giveUp _ .failed).imp (fun _ => id) fun _ _ ended =>
        ⟨ended.1, fun resolved => absurd (ended.2.symm.trans resolved) (by decide)⟩

end Loading

section Updates

theorem run_migrateTrees (tag : String) (previous : ProgressTrees) (compilation : Compilation)
    (session : Session) :
    ∃ lines : List String, (migrateTrees tag previous compilation).run session =
      (.ok (previous.migrate compilation), session.enter (lines.map .logged)) := by
  have logging (messages : List String) (session : Session) : ∃ lines : List String,
      (messages.forM (log tag .debug)).run session =
        (.ok (), session.enter (lines.map .logged)) := by
    induction messages generalizing session with
    | nil => exact ⟨[], by simp⟩
    | cons message rest ih =>
        rcases ih (session.enter
          (((session.options.logger tag).line? .debug message).toList.map .logged)) with
          ⟨lines, ran⟩
        refine ⟨((session.options.logger tag).line? .debug message).toList ++ lines, ?_⟩
        change (log tag .debug message >>= fun _ => rest.forM (log tag .debug)).run session = _
        rw [run_bind, run_log, List.map_append, ← Session.enter_enter]
        exact ran
  rcases logging (ProgressTrees.dropped previous compilation) session with ⟨lines, ran⟩
  refine ⟨lines, ?_⟩
  rw [migrateTrees, run_bind, ran]
  rfl

end Updates

end SessionM

namespace Session

/-- The session after an update has begun and migrated the trees that it carries over. -/
def begunUpdate (session : Session) (number : Nat) (compilation : Compilation) : Session :=
  ((SessionM.migrateTrees "project" (session.manager number).latest.trees compilation).run
    (session.change number (.updateBegun compilation.version))).2

/-- The session after an update has come to its version. -/
def openedUpdate (session : Session) (number : Nat) (compilation : Compilation) : Session :=
  (session.begunUpdate number compilation).change number (.accepted (.unloaded { compilation }))

/-- What an update does first is logged at most. -/
theorem begunUpdate_eq (session : Session) (number : Nat) (compilation : Compilation) :
    ∃ lines : List String, session.begunUpdate number compilation =
      (session.change number (.updateBegun compilation.version)).enter (lines.map .logged) := by
  rcases SessionM.run_migrateTrees "project" (session.manager number).latest.trees compilation
    (session.change number (.updateBegun compilation.version)) with ⟨lines, migrated⟩
  exact ⟨lines, congrArg Prod.snd migrated⟩

theorem manager_begunUpdate (session : Session) (number : Nat) (compilation : Compilation)
    (other : Nat) :
    (session.begunUpdate number compilation).manager other =
      (session.change number (.updateBegun compilation.version)).manager other := by
  rcases session.begunUpdate_eq number compilation with ⟨lines, isBegun⟩
  rw [isBegun]
  rfl

theorem latest_begunUpdate (session : Session) (number : Nat) (compilation : Compilation) :
    ((session.begunUpdate number compilation).manager number).latest =
      (session.manager number).latest := by
  rw [manager_begunUpdate, manager_change_self]
  rfl

end Session

namespace SessionM

open Session (Knows Reached IsLoading Keeps Behaves)

section Updates

variable {number : Nat} {services : Services} {compilation : Compilation} {session : Session}

theorem run_migrateTrees_begun (session : Session) (number : Nat) (compilation : Compilation) :
    (migrateTrees "project" (session.manager number).latest.trees compilation).run
        (session.change number (.updateBegun compilation.version)) =
      (.ok ((session.manager number).latest.trees.migrate compilation),
        session.begunUpdate number compilation) := by
  rcases run_migrateTrees "project" (session.manager number).latest.trees compilation
    (session.change number (.updateBegun compilation.version)) with ⟨lines, migrated⟩
  rw [Session.begunUpdate, migrated]

/-- A version that is just opened is not announced, so its publication cannot
fail. -/
theorem run_publish_unloaded {snapshot : Unloaded} {session : Session}
    (current : ¬(Snapshot.unloaded snapshot).Precedes (session.manager number).latest) :
    (publish number (.unloaded snapshot)).run session =
      (.ok true, session.change number (.accepted (.unloaded snapshot))) := by
  rw [publish, run_bind, run_manager]
  simp only [if_neg current]
  rw [run_bind, run_change]
  rfl

/-- An update may begin unless its version is older than the latest one. -/
theorem evolves_updateBegun (known : session.Knows number)
    (notOlder : (session.manager number).latest.version ≤ compilation.version) :
    session.Evolves (session.change number (.updateBegun compilation.version)) :=
  .change known notOlder fun _ => rfl

theorem behaves_begunUpdate (session : Session) (number : Nat) (compilation : Compilation) :
    (session.change number (.updateBegun compilation.version)).Behaves (some number) true
      (session.begunUpdate number compilation) := by
  rcases session.begunUpdate_eq number compilation with ⟨lines, isBegun⟩
  rw [isBegun]
  exact .enter (by simp [Event.isIncidental])

/-- An update to an older version returns at once. -/
theorem run_update_of_older (older : compilation.version < (session.manager number).latest.version)
    (services : Services) :
    (update services number compilation).run session = (.ok .superseded, session) := by
  simp only [update, run_bind, run_manager, if_pos older, run_pure]

/-- An update to a version that the manager has loaded already is turned away. -/
theorem run_update_of_stale
    (notOlder : (session.manager number).latest.version ≤ compilation.version)
    (stale : (Snapshot.unloaded { compilation }).Precedes (session.manager number).latest) :
    ∃ lines : List String, ∀ services, (update services number compilation).run session =
      (.ok .superseded, ((session.begunUpdate number compilation).enter
        (lines.map .logged)).change number (.updateEnded compilation.version .superseded)) := by
  rw [← session.latest_begunUpdate number compilation] at stale
  rcases run_publish_of_precedes stale with ⟨lines, dropped⟩
  refine ⟨lines, fun services => ?_⟩
  simp only [update, load, run_bind, run_manager, if_neg (Int.not_lt.mpr notOlder), run_change,
    run_migrateTrees_begun, dropped, Bool.false_eq_true, if_false, run_pure]

/-- An update to any other version that is not older comes to the version at once. -/
theorem run_update_of_not_stale (services : Services)
    (notOlder : (session.manager number).latest.version ≤ compilation.version)
    (current : ¬(Snapshot.unloaded { compilation }).Precedes (session.manager number).latest) :
    (update services number compilation).run session =
      (loadOrGiveUp services number compilation
          ((session.manager number).latest.trees.migrate compilation) >>= fun status => do
        SessionM.change number (.updateEnded compilation.version status)
        return status).run (session.openedUpdate number compilation) := by
  rw [← session.latest_begunUpdate number compilation] at current
  simp only [update, load, run_bind, run_manager, if_neg (Int.not_lt.mpr notOlder), run_change,
    run_migrateTrees_begun, run_publish_unloaded current, if_true]
  rfl

/-- An update that comes to its version does so from the snapshot that was the latest one
when it began. -/
theorem isLoading_openedUpdate (known : session.Knows number)
    (notOlder : (session.manager number).latest.version ≤ compilation.version)
    (current : ¬(Snapshot.unloaded { compilation }).Precedes (session.manager number).latest) :
    (session.change number (.updateBegun compilation.version)).Behaves (some number) true
        (session.openedUpdate number compilation) ∧
      IsLoading number compilation.version (session.manager number).latest
        (session.openedUpdate number compilation) := by
  have evolves := evolves_updateBegun known notOlder
  have begun := behaves_begunUpdate session number compilation
  rw [← session.latest_begunUpdate number compilation] at current
  have accepted : (session.begunUpdate number compilation).Behaves (some number) true _ :=
    Behaves.accept ((evolves.trans begun.evolves).mem_managers known) current (.nil _) trivial
      (fun _ => trivial) (Manager.upholds_accepted nofun nofun)
  rw [List.map_nil, Session.enter_nil] at accepted
  have opened := begun.trans accepted
  refine ⟨opened, ⟨(evolves.trans opened.evolves).mem_managers known, ?_⟩, ?_, ?_⟩
  · simp [Session.openedUpdate, Manager.after, Snapshot.version, Snapshot.compilation]
  · have begunLatest : ((session.change number
        (.updateBegun compilation.version)).manager number).latest =
          (session.manager number).latest := by
      simp [Manager.after]
    have began : UpdateBegan number compilation.version (session.manager number).latest
        (session.change number (.updateBegun compilation.version)).chronicle :=
      ⟨session.chronicle, _, [], rfl, rfl, begunLatest, by simp⟩
    rcases session.begunUpdate_eq number compilation with ⟨lines, isBegun⟩
    rw [Session.openedUpdate, isBegun]
    refine (began.append ?_).append ?_
    · intro entry mem
      rcases List.mem_map.mp mem with ⟨_, _, rfl⟩
      exact Or.inl begunLatest
    · intro entry mem
      obtain rfl := List.mem_singleton.mp mem
      right
      simp [ChronicleEntry.latest, Manager.after, Snapshot.version, Snapshot.compilation]
  · have attends := (opened.attends number).returns rfl
    rw [Session.Attends.updatesInProgress_begun] at attends
    exact attends ▸ List.mem_cons_self

/-- A failure that is caught is none. -/
theorem neverFails_attempt {α : Type} (action : SessionM α) (session : Session)
    (message : String) : ((attempt action).run session).1 ≠ .error (.failed message) := by
  rw [run_attempt]
  rcases action.run session with ⟨(_ | _ | _) | _, _⟩ <;> simp

/-- Loading ends with a status unless it gets stuck. -/
theorem neverFails_loadOrGiveUp (services : Services) (number : Nat) (compilation : Compilation)
    (migrated : ProgressTrees) (session : Session) (message : String) :
    ((loadOrGiveUp services number compilation migrated).run session).1 ≠
      .error (.failed message) := by
  have caught := neverFails_attempt (loadStages services number compilation migrated) session
    message
  rw [loadOrGiveUp, run_bind]
  rcases ran : (attempt (loadStages services number compilation migrated)).run session with
    ⟨outcome, after⟩
  rw [ran] at caught
  rcases outcome with stop | (failure | status)
  · simpa using caught
  · simp only [reportFailure, giveUp, run_bind, run_record, run_change, run_pure]
    nofun
  · nofun

/-- A held version is loaded, so an update that is not turned away is to a newer one. -/
theorem version_lt_of_isHeld
    (notOlder : (session.manager number).latest.version ≤ compilation.version)
    (current : ¬(Snapshot.unloaded { compilation }).Precedes (session.manager number).latest)
    (held : (session.manager number).IsHeld) :
    (session.manager number).latest.version < compilation.version := by
  have loaded : 0 < (session.manager number).latest.stage.rank :=
    Nat.pos_of_ne_zero fun unloaded => held.stage_ne (Stage.rank_inj.mp unloaded)
  rcases Int.lt_or_eq_of_le notOlder with newer | same
  · exact newer
  · exact absurd (Or.inr ⟨same.symm, loaded⟩) current

/-- An update that is turned away does nothing but begin and end. -/
theorem behaves_update_of_stale (known : number ∈ session.managers)
    (notOlder : (session.manager number).latest.version ≤ compilation.version)
    (stale : (Snapshot.unloaded { compilation }).Precedes (session.manager number).latest) :
    session.Behaves none
      (Session.cameBack ((update services number compilation).run session).1)
      ((update services number compilation).run session).2 := by
  rcases run_update_of_stale notOlder stale with ⟨lines, ran⟩
  rw [ran]
  have logged : (session.change number (.updateBegun compilation.version)).Behaves
      (some number) true ((session.begunUpdate number compilation).enter (lines.map .logged)) :=
    (behaves_begunUpdate session number compilation).trans
      (.enter (by simp [Event.isIncidental]))
  refine (Behaves.update_ended known notOlder logged .superseded ?_).none_of_acting ?_
  · intro wasAttended parsed same
    rw [Session.manager_enter, Session.manager_begunUpdate, Session.manager_change_self]
      at parsed same ⊢
    exact same ▸ wasAttended.parsed parsed
  · intro _ _
    simp [Session.manager_begunUpdate, Manager.after]

/-- An update that is not turned away opens its version and loads it, and leaves a held version
behind. -/
theorem behaves_update_of_not_stale (respect : services.Respect (Behaves none))
    (wellNumbered : session.WellNumbered) (known : number ∈ session.managers)
    (notOlder : (session.manager number).latest.version ≤ compilation.version)
    (current : ¬(Snapshot.unloaded { compilation }).Precedes (session.manager number).latest) :
    session.Behaves none
      (Session.cameBack ((update services number compilation).run session).1)
      ((update services number compilation).run session).2 := by
  rw [run_update_of_not_stale services notOlder current]
  have begun := evolves_updateBegun known notOlder
  obtain ⟨opened, loading⟩ := isLoading_openedUpdate known notOlder current
  have loads := meets_loadOrGiveUp respect compilation _ _
    ((begun.trans opened.evolves).wellNumbered wellNumbered) loading
  have never := neverFails_loadOrGiveUp services number compilation
    ((session.manager number).latest.trees.migrate compilation)
    (session.openedUpdate number compilation)
  -- A version that is held is loaded already, so what is opened is newer.
  have leaves {after : Session}
      (evolves : (session.openedUpdate number compilation).Evolves after)
      (held : (session.manager number).IsHeld)
      (same : (after.manager number).latest.version =
        (session.manager number).latest.version) : False := by
    have newer := version_lt_of_isHeld notOlder current held
    have grown := evolves.version_le loading.reached.1
    have least := loading.reached.2
    omega
  rw [run_bind]
  rcases loaded : (loadOrGiveUp services number compilation
    ((session.manager number).latest.trees.migrate compilation)).run
    (session.openedUpdate number compilation) with ⟨outcome, after⟩
  rw [loaded] at loads never
  cases outcome with
  | ok status =>
      have concluded := (loads.2 status rfl).1
      refine (Behaves.update_ended known notOlder (opened.trans loads.1) status
        fun _ parsed same => Or.inl (concluded parsed same)).none_of_acting ?_
      intro held same
      rw [Session.manager_change_self] at same
      exact (leaves loads.1.evolves held same).elim
  | error stop =>
      cases stop with
      | failed message => exact absurd rfl (never message)
      | stuck | misused =>
          exact (Behaves.update_begun known notOlder (opened.trans loads.1)).none_of_acting
            fun held same => (leaves loads.1.evolves held same).elim

/-- An update respects what its services respect, and leaves a manager alone whose latest
version is held. -/
theorem meets_update (respect : services.Respect (Behaves none)) (compilation : Compilation) :
    Meets (Behaves none) (Knows number) (update services number compilation)
      fun _ _ => True := by
  intro session wellNumbered known
  refine ⟨?_, fun _ _ => trivial⟩
  rcases Int.lt_or_le compilation.version (session.manager number).latest.version with
    older | notOlder
  · rw [run_update_of_older older]
    exact (isDiscipline_behaves none).refl _ session
  · by_cases stale : (Snapshot.unloaded { compilation }).Precedes (session.manager number).latest
    · exact behaves_update_of_stale known notOlder stale
    · exact behaves_update_of_not_stale respect wellNumbered known notOlder stale

end Updates

end SessionM

end Proofline
