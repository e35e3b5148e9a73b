import Proofline.Proofs.CanceledCalls

/-!
# Superseded updates

An update that says it was superseded should have given way to a newer version. Versions of
the latest snapshot never decrease, so whether a newer one has come can be seen when the
update returns. There are just two more reasons to turn an update away: its version was
loaded already when it began, or another update has resolved the version while the parser was
at work.
-/

namespace Proofline

/-- Whether a manager has come to a version, and beyond a stage of it. -/
def Manager.IsBeyond (stage : Stage) (version : Int) (manager : Manager) : Prop :=
  manager.latest.version = version ∧ stage.rank < manager.latest.stage.rank

instance (stage : Stage) (version : Int) (manager : Manager) :
    Decidable (manager.IsBeyond stage version) :=
  inferInstanceAs (Decidable (_ ∧ _))

namespace Session

/-- Whether at some moment so far the latest version of a manager was newer than a given
one. -/
def HasMetNewer (number : Nat) (version : Int) (session : Session) : Prop :=
  ∃ entry ∈ session.chronicle, number ∈ entry.managers ∧ version < (entry.latest number).version

instance (number : Nat) (version : Int) (session : Session) :
    Decidable (session.HasMetNewer number version) :=
  inferInstanceAs (Decidable (∃ entry ∈ session.chronicle, _))

/-- A newer version was the latest one exactly if it is so now. -/
theorem IsReachable.hasMetNewer_iff {session : Session} (reachable : session.IsReachable)
    {number : Nat} (known : session.Knows number) {version : Int} :
    session.HasMetNewer number version ↔ version < (session.manager number).latest.version := by
  constructor
  · rintro ⟨entry, mem, wasKnown, newer⟩
    exact Int.lt_of_lt_of_le newer (reachable.version_le_of_mem mem wasKnown)
  · intro newer
    have history := reachable.history.1
    rcases List.eq_nil_or_concat session.chronicle with nothing | ⟨others, last, parts⟩
    · rw [nothing] at history
      have known : number ∈ session.managers := known
      rw [← history.eq_of_nil] at known
      simp at known
    · rw [List.concat_eq_append] at parts
      have isLast := (history.split parts).2.eq_of_nil
      refine ⟨last, by simp [parts], isLast ▸ known, ?_⟩
      rw [ChronicleEntry.latest, isLast]
      exact newer

/-- Whether another update has resolved the version of an update by the time its parser
returns. -/
def IsOvertaken (services : Services) (number : Nat) (compilation : Compilation)
    (session : Session) : Prop :=
  ¬(Snapshot.unloaded { compilation }).Precedes (session.manager number).latest ∧
    ∃ parsed middle,
      (SessionM.parse services compilation
          ((session.manager number).latest.trees.migrate compilation)).run
        (session.openedUpdate number compilation) = (.ok (.ok parsed), middle) ∧
      (middle.manager number).IsBeyond .parsed compilation.version

end Session

namespace SessionM

open Session (IsLoading Behaves)

variable {services : Services} {number : Nat}

/-- Once its parsed version is accepted, an update is superseded by newer versions only. -/
theorem version_lt_of_superseded (respect : services.Respect (Behaves none)) {parsed : Parsed}
    {origin : Snapshot} {session after : Session} (wellNumbered : session.WellNumbered)
    (loading : session.IsLoading number parsed.compilation.version origin)
    (trees : parsed.trees = Parsed.initialTrees parsed.compilation
      (origin.trees.migrate parsed.compilation))
    (holds : parsed.MatchesJournal session)
    (current : ¬(Snapshot.parsed parsed).Precedes (session.manager number).latest)
    (ran : (publish number (.parsed parsed) >>= fun accepted =>
      if accepted then
        loadResolved services number parsed (origin.trees.migrate parsed.compilation)
      else
        Pure.pure .superseded).run session = (.ok .superseded, after)) :
    parsed.compilation.version < (after.manager number).latest.version := by
  have publishing := behaves_publish (.parsed parsed) loading.reached.1
    (fun _ => ⟨origin, loading.began, trees⟩) (fun keeps => keeps.hasWarrant_parsed holds)
    (fun _ => Manager.upholds_accepted (fun _ => loading.attending) nofun) true
  rw [run_bind] at ran
  rcases published : (publish number (.parsed parsed)).run session with ⟨outcome, middle⟩
  rw [published] at publishing ran
  obtain ⟨behaves, taken, dropped⟩ := publishing
  rcases outcome with stop | (_ | _)
  · cases ran
  · exact absurd (dropped rfl).1 current
  · have isLatest : (middle.manager number).latest = .parsed parsed := by
      rw [(taken rfl).2.1]
      rfl
    have opened := isStable_hasJournal (isDiscipline_behaves (some number))
      parsed.program.journal parsed.compilation.project _ _ _ behaves holds.opened
    have loaded := meets_loadResolved respect parsed (origin.trees.migrate parsed.compilation)
      middle (behaves.evolves.wellNumbered wellNumbered)
      ⟨behaves.evolves.mem_managers loading.reached.1, isLatest, opened⟩
    simp only [if_true] at ran
    rw [ran] at loaded
    exact (loaded.2 .superseded rfl).superseded rfl

section Loading

variable {compilation : Compilation} {migrated : ProgressTrees} {status : UpdateStatus}
  {session after : Session}

theorem run_loadOrGiveUp_of_run_loadStages
    (ran : (loadStages services number compilation migrated).run session = (.ok status, after)) :
    (loadOrGiveUp services number compilation migrated).run session = (.ok status, after) := by
  rw [loadOrGiveUp, run_bind, run_attempt, ran]
  rfl

/-- An update that did not fail has gone through all its stages. -/
theorem run_loadStages_of_run_loadOrGiveUp (succeeded : status ≠ .failed)
    (ran : (loadOrGiveUp services number compilation migrated).run session = (.ok status, after)) :
    (loadStages services number compilation migrated).run session = (.ok status, after) := by
  rw [loadOrGiveUp, run_bind, run_attempt] at ran
  rcases stages : (loadStages services number compilation migrated).run session with
    ⟨(message | _ | _) | reached, middle⟩
  · rw [stages] at ran
    simp only [reportFailure, giveUp, run_bind, run_record, run_change, run_pure] at ran
    cases ran
    exact absurd rfl succeeded
  · rw [stages] at ran
    cases ran
  · rw [stages] at ran
    cases ran
  · rw [stages] at ran
    exact ran

/-- A parsed version that is dropped ends its update. -/
theorem run_loadStages_of_precedes {parsed : Parsed} {middle : Session}
    (parses : (parse services compilation migrated).run session = (.ok (.ok parsed), middle))
    (stale : (Snapshot.parsed parsed).Precedes (middle.manager number).latest) :
    ∃ lines : List String, (loadStages services number compilation migrated).run session =
      (.ok .superseded, middle.enter (lines.map .logged)) := by
  rcases run_publish_of_precedes stale with ⟨lines, dropped⟩
  refine ⟨lines, ?_⟩
  rw [loadStages, run_bind, parses]
  simp only [run_bind, dropped, Bool.false_eq_true, if_false, run_pure]

/-- An update that comes to its version is superseded without a newer version exactly if
another one resolves the version while the parser is at work. -/
theorem superseded_iff_of_isLoading (respect : services.Respect (Behaves none))
    {origin : Snapshot} (wellNumbered : session.WellNumbered)
    (loading : session.IsLoading number compilation.version origin)
    (ran : (loadOrGiveUp services number compilation (origin.trees.migrate compilation)).run
      session = (.ok status, after)) :
    (status = .superseded ∧ ¬compilation.version < (after.manager number).latest.version) ↔
      ∃ parsed middle,
        (parse services compilation (origin.trees.migrate compilation)).run session =
          (.ok (.ok parsed), middle) ∧
        (middle.manager number).IsBeyond .parsed compilation.version := by
  have parsing := meets_parse (isDiscipline_behaves none) respect compilation
    (origin.trees.migrate compilation) session wellNumbered trivial
  constructor
  · rintro ⟨rfl, notNewer⟩
    have stages := run_loadStages_of_run_loadOrGiveUp (by decide) ran
    rw [loadStages, run_bind] at stages
    rcases parses : (parse services compilation (origin.trees.migrate compilation)).run session
      with ⟨stop | (reason | parsed), middle⟩
    · rw [parses] at stages
      cases stages
    · rw [parses] at stages
      simp only [giveUp, run_bind, run_change, run_pure] at stages
      cases stages
    · rw [parses] at stages parsing
      obtain ⟨rfl, trees, holds⟩ := parsing.2 (.ok parsed) rfl parsed rfl
      have stillLoading := isStable_isLoading none number parsed.compilation.version origin
        _ _ _ parsing.1 loading
      by_cases stale : (Snapshot.parsed parsed).Precedes (middle.manager number).latest
      · rcases run_publish_of_precedes stale with ⟨lines, dropped⟩
        simp only [run_bind, dropped, Bool.false_eq_true, if_false, run_pure] at stages
        cases stages
        obtain ⟨same, further⟩ := stale.resolve_left notNewer
        exact ⟨parsed, middle, rfl, same.symm, further⟩
      · exact absurd (version_lt_of_superseded respect
          (parsing.1.evolves.wellNumbered wellNumbered) stillLoading trees holds stale stages)
          notNewer
  · rintro ⟨parsed, middle, parses, same, further⟩
    rw [parses] at parsing
    obtain ⟨rfl, _, _⟩ := parsing.2 (.ok parsed) rfl parsed rfl
    rcases run_loadStages_of_precedes parses (Or.inr ⟨same.symm, further⟩) with ⟨lines, stages⟩
    rw [run_loadOrGiveUp_of_run_loadStages stages] at ran
    cases ran
    refine ⟨rfl, ?_⟩
    rw [Session.manager_enter, same]
    exact Int.lt_irrefl _

end Loading

section Updates

variable {compilation : Compilation} {status : UpdateStatus} {session after : Session}

/-- An update that is turned away at once is superseded without a newer version exactly if its
version was loaded. -/
theorem superseded_iff_of_precedes
    (stale : (Snapshot.unloaded { compilation }).Precedes (session.manager number).latest)
    (ran : (update services number compilation).run session = (.ok status, after)) :
    (status = .superseded ∧ ¬compilation.version < (after.manager number).latest.version) ↔
      (session.manager number).IsBeyond .unloaded compilation.version := by
  rcases run_update_of_precedes stale with ⟨middle, turnedAway, _, same⟩
  rw [turnedAway] at ran
  cases ran
  rw [same number]
  constructor
  · rintro ⟨_, notNewer⟩
    obtain ⟨isVersion, loaded⟩ := stale.resolve_left notNewer
    exact ⟨isVersion.symm, loaded⟩
  · rintro ⟨isVersion, _⟩
    exact ⟨rfl, by rw [isVersion]; exact Int.lt_irrefl _⟩

/-- Any other update is superseded without a newer version exactly if another one resolves the
version meanwhile. -/
theorem superseded_iff_of_not_precedes (respect : services.Respect (Behaves none))
    (wellNumbered : session.WellNumbered) (known : session.Knows number)
    (current : ¬(Snapshot.unloaded { compilation }).Precedes (session.manager number).latest)
    (ran : (update services number compilation).run session = (.ok status, after)) :
    (status = .superseded ∧ ¬compilation.version < (after.manager number).latest.version) ↔
      session.IsOvertaken services number compilation := by
  have notOlder : (session.manager number).latest.version ≤ compilation.version :=
    Int.not_lt.mp fun older => current (Or.inl older)
  obtain ⟨opened, loading⟩ := isLoading_openedUpdate known notOlder current
  have openedNumbered := ((evolves_updateBegun known notOlder).trans
    opened.evolves).wellNumbered wellNumbered
  rw [run_update_of_not_stale services notOlder current, run_bind] at ran
  rcases loads : (loadOrGiveUp services number compilation
    ((session.manager number).latest.trees.migrate compilation)).run
    (session.openedUpdate number compilation) with ⟨stop | reached, middle⟩
  · rw [loads] at ran
    cases ran
  · have overtaken := superseded_iff_of_isLoading respect openedNumbered loading loads
    rw [loads] at ran
    cases ran
    rw [Session.latest_change rfl, overtaken, Session.IsOvertaken]
    simp [current]

end Updates

end SessionM

namespace Session

/-- What it means that an update was superseded. -/
structure Supersedes (services : Services) (number : Nat) (compilation : Compilation)
    (before : Session) (status : UpdateStatus) (after : Session) : Prop where
  /-- If no newer version has come, the version was loaded when the update began, or another
  update resolved it while the parser was at work. -/
  superseded_iff : (status = .superseded ∧ ¬after.HasMetNewer number compilation.version) ↔
    (before.manager number).IsBeyond .unloaded compilation.version ∨
      before.IsOvertaken services number compilation
  /-- An update to a version that was loaded when it began calls no service. -/
  ignored : (before.manager number).IsBeyond .unloaded compilation.version →
    before.StaysQuiet after ∧
      ∀ other, (after.manager other).latest = (before.manager other).latest

/-- Every update that returns has given way to a newer version when it says so, but for the two
exceptions. -/
theorem IsReachable.supersedes {session after : Session} (reachable : session.IsReachable)
    {number : Nat} (known : session.Knows number) {n : Nat} (plan : Plan (Step n))
    {compilation : Compilation} {status : UpdateStatus}
    (ran : (SessionM.update (plan.services (Step.perform n)) number compilation).run session =
      (.ok status, after)) :
    Supersedes (plan.services (Step.perform n)) number compilation session status after := by
  have respect := SessionM.respect_services (isDiscipline_behaves none)
    (Step.behaves_perform n) plan
  have behaves :=
    (SessionM.meets_update respect compilation session reachable.wellNumbered known).1
  rw [ran] at behaves
  have afterwards : after.HasMetNewer number compilation.version ↔
      compilation.version < (after.manager number).latest.version :=
    (reachable.of_evolves behaves.evolves).hasMetNewer_iff (behaves.evolves.mem_managers known)
  by_cases stale : (Snapshot.unloaded { compilation }).Precedes (session.manager number).latest
  · have notOvertaken : ¬session.IsOvertaken (plan.services (Step.perform n)) number compilation :=
      fun overtaken => overtaken.1 stale
    refine ⟨?_, fun _ => ?_⟩
    · rw [afterwards, SessionM.superseded_iff_of_precedes stale ran]
      simp [notOvertaken]
    · rcases SessionM.run_update_of_precedes stale with ⟨middle, turnedAway, ignored⟩
      rw [turnedAway] at ran
      cases ran
      exact ignored
  · have notLoaded : ¬(session.manager number).IsBeyond .unloaded compilation.version :=
      fun ⟨isVersion, loaded⟩ => stale (Or.inr ⟨isVersion.symm, loaded⟩)
    refine ⟨?_, fun loaded => absurd loaded notLoaded⟩
    rw [afterwards,
      SessionM.superseded_iff_of_not_precedes respect reachable.wellNumbered known stale ran]
    simp [notLoaded]

/-- The parser runs another update to the same version, which resolves it, and the update is
superseded although no version was ever newer. -/
example :
    let nesting : Plan (Step 0) :=
      { Plan.succeeding none with
        parse := {
          steps := [{ request := .update 0 .sample, plan := .succeeding none }]
          reply := none } }
    let ran := (SessionM.update (nesting.services (Step.perform 0)) 0 .sample).run (sample 0 [])
    ran.1.toOption = some .superseded ∧ ¬ran.2.HasMetNewer 0 1 := by
  decide +kernel

end Session

/-- The steps that open the sample project and update it to version 1 again and again, for a
parser that reports an error each time. -/
def Step.sampleErrors (updates : Nat) : List (Step 0) :=
  let error : Diagnostic := { severity := .error, message := "e" }
  let plan : Plan Empty :=
    { Plan.succeeding none with parse := { reports := [.full error], reply := none } }
  { request := .openProject .sample, plan } ::
    List.replicate updates { request := .update 0 .sample, plan }

namespace Session

/-- The session after these steps. -/
def erroneous (updates : Nat) : Session :=
  (run {} 0 (Step.sampleErrors updates)).2

/-- Version 1 is sent again after it stopped at parse errors. The update is superseded, and
there is no newer version. -/
theorem supersedes_sample :
    ∃ after, (SessionM.update ((Plan.succeeding none).services (Step.perform 0)) 0 .sample).run
        (erroneous 1) = (.ok .superseded, after) ∧
      ¬after.HasMetNewer 0 Compilation.sample.version ∧ (erroneous 1).StaysQuiet after := by
  have loaded : ((erroneous 1).manager 0).IsBeyond .unloaded Compilation.sample.version := by
    decide +kernel
  have known : (erroneous 1).Knows 0 :=
    (by decide +kernel : 0 ∈ (erroneous 1).managers)
  have returns : ((SessionM.update ((Plan.succeeding none).services (Step.perform 0)) 0 .sample).run
      (erroneous 1)).1.toOption = some .superseded := by
    decide +kernel
  have reachable : (erroneous 1).IsReachable := isReachable_run {} 0 _
  generalize erroneous 1 = session at *
  rcases ran : (SessionM.update ((Plan.succeeding none).services (Step.perform 0)) 0 .sample).run
    session with ⟨outcome, after⟩
  rw [ran] at returns
  obtain rfl : outcome = .ok .superseded := by
    cases outcome with
    | error stop => cases returns
    | ok status => exact congrArg _ (Option.some.inj returns)
  have supersedes := reachable.supersedes known (.succeeding none) ran
  exact ⟨after, rfl, (supersedes.superseded_iff.mpr (Or.inl loaded)).2,
    (supersedes.ignored loaded).1⟩

/-- The parser is not called for the version a second time, the update ends as superseded, and
no version was ever newer. -/
theorem resent_sample :
    (erroneous 2).chronicle.filterMap (fun entry => match entry.event with
        | .parsing version => some (version, none)
        | .changed 0 (.updateEnded version status) => some (version, some status)
        | _ => none) =
      [(1, none), (1, some .parseErrors), (1, some .superseded)] ∧
      ¬(erroneous 2).HasMetNewer 0 1 := by
  decide +kernel

end Session

end Proofline
