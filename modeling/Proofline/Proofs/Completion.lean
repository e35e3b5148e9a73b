import Proofline.Proofs.Settlement
import Proofline.Proofs.Uninterrupted

/-!
# Completion

A version is complete when it has as many results as units, but results are
recorded by key. An uninterrupted verification therefore finishes its version
exactly when no two units share a key; otherwise the version is never complete,
although every unit has a result, and whoever awaits it waits forever.
-/

namespace Proofline

/-- With a result for every pending unit a version is complete exactly when its units
have different keys. -/
theorem Verified.complete_record_iff {base : Resolved} {recorded : List (Declaration × Outcome)}
    (all : recorded.map Prod.fst = (start base).pending base.units) :
    ((start base).record recorded).complete = true ↔
      (base.units.map Declaration.key).Nodup := by
  have inOrder : recorded.map Prod.fst <+: (start base).pending base.units :=
    all ▸ List.prefix_rfl
  have counted := completed_record inOrder
  have length : recorded.length = (Declaration.distinct base.units).length := by
    rw [← pending_start base, ← all, List.length_map]
  have started : (start base).completed = 0 := rfl
  have atMost := Declaration.length_distinct_le base.units
  rw [complete, decide_eq_true_eq, resolved_record, counted, started, length,
    ← Declaration.length_distinct_eq_iff]
  change base.units.length ≤ _ ↔ _
  omega

/-- A version whose last snapshot is complete is settled, and is the newest one that
was verified. -/
theorem Manager.finish_of_complete (manager : Manager) {last : Verified}
    (complete : last.complete = true)
    (newest : ∀ former, manager.lastVerified = some former →
      former.compilation.version ≤ last.compilation.version) :
    last.compilation.version ≤ (manager.finish last).settled ∧
      (manager.finish last).lastVerified = some last := by
  rw [finish, if_pos complete]
  refine ⟨Int.le_max_right _ _, ?_⟩
  rcases lastVerified_settle _ last.compilation.version last with
    ⟨same, _⟩ | ⟨former, _, was, newer⟩
  · exact same
  · exact absurd newer (Int.not_lt.mpr (newest former was))

/-- A version whose last snapshot is not complete is not settled by it. -/
theorem Manager.settled_finish_of_not_complete {manager : Manager} {last : Verified}
    (notComplete : ¬last.complete = true) :
    (manager.finish last).settled = manager.settled := by
  rw [finish, if_neg notComplete]

namespace Session

/-- Whether a manager has verified its latest version in full and settled it, so that
whoever awaits it gets the snapshot. -/
def Finished (number : Nat) (session : Session) : Prop :=
  ∃ last, (session.manager number).latest = .verified last ∧
    last.complete = true ∧
    last.compilation.version ≤ (session.manager number).settled ∧
    (session.manager number).lastVerified = some last ∧
    (SessionM.awaitVerified number).run session = (.ok (some last), session)

variable {session : Session} {number : Nat}

theorem finished_of_settled {last : Verified}
    (latest : (session.manager number).latest = .verified last)
    (complete : last.complete = true)
    (settled : last.compilation.version ≤ (session.manager number).settled)
    (lastVerified : (session.manager number).lastVerified = some last) :
    session.Finished number := by
  refine ⟨last, latest, complete, settled, lastVerified, ?_⟩
  have version : (session.manager number).latest.version = last.compilation.version := by
    rw [latest]
    rfl
  have isSettled : (session.manager number).isSettled
      (session.manager number).latest.version = true := by
    simp [Manager.isSettled, settled, version]
  rw [SessionM.run_awaitVerified_of_isSettled isSettled, lastVerified, version]
  simp [Option.filter]

/-- Nobody gets a version that is verified in part and not settled. -/
theorem run_awaitVerified_of_unsettled {last : Verified}
    (latest : (session.manager number).latest = .verified last)
    (unsettled : (session.manager number).settled < last.compilation.version)
    (notCanceled : session.canceled = false) :
    (SessionM.awaitVerified number).run session = (.error .stuck, session) := by
  have version : (session.manager number).latest.version = last.compilation.version := by
    rw [latest]
    rfl
  have notSettled : (session.manager number).isSettled
      (session.manager number).latest.version = false := by
    rw [version]
    simp [Manager.isSettled, Manager.isIdleUnloaded, latest, Snapshot.stage,
      Int.not_le.mpr unsettled]
  rw [SessionM.run_awaitVerified_of_not_isSettled notSettled, notCanceled]
  rfl

/-- An uninterrupted verification of a resolved version that is not refused ends with
a snapshot that is complete exactly when the units have different keys. The version is
finished if it is; otherwise whoever awaits it waits forever. -/
theorem IsReachable.verified_of_accepts (reachable : session.IsReachable) {base : Resolved}
    (latest : (session.manager number).latest = .resolved base)
    (accepts : ¬(session.manager number).Refuses base.compilation.version) {n : Nat}
    (plan : Plan (Step n)) {outcome : Except Stop Unit} {after : Session}
    (ran : (SessionM.verifyEverything (plan.services (Step.perform n)) number).run session =
      (outcome, after))
    (uninterrupted : session.Uninterrupted number outcome after) :
    outcome = .ok () ∧ ∃ last, (after.manager number).latest = .verified last ∧
      (last.complete = true ↔ (base.units.map Declaration.key).Nodup) ∧
      (last.complete = true → after.Finished number) ∧
      (¬last.complete = true →
        (SessionM.awaitVerified number).run after = (.error .stuck, after)) := by
  have begins : (session.manager number).latest.begun? = some (.start base) := by
    rw [latest]
    rfl
  obtain ⟨ended, recorded, all, finished⟩ := SessionM.run_verifyEverything_uninterrupted
    reachable.wellNumbered begins accepts ran uninterrupted
  have isVerified : (after.manager number).latest =
      .verified ((Verified.start base).record recorded) := by
    rw [finished, Manager.latest_finish]
  have version : ((Verified.start base).record recorded).compilation.version =
      base.compilation.version :=
    congrArg Compilation.version (Verified.compilation_record _ recorded)
  have unsettled := (Manager.not_refuses_iff.mp accepts).1
  refine ⟨ended, _, isVerified, Verified.complete_record_iff all, ?_, ?_⟩
  · intro complete
    have accounted := reachable.history.1.accounted number
    have newest (former : Verified) (was : (session.manager number).lastVerified = some former) :
        former.compilation.version ≤
          ((Verified.start base).record recorded).compilation.version := by
      rw [version]
      exact Int.le_of_lt (Int.lt_of_le_of_lt (accounted.verified former was).2 unsettled)
    have isFinished := Manager.finish_of_complete (session.manager number) complete newest
    rw [← finished] at isFinished
    exact finished_of_settled isVerified complete isFinished.1 isFinished.2
  · intro notComplete
    apply run_awaitVerified_of_unsettled isVerified ?_ uninterrupted.notCanceled
    rw [finished, Manager.settled_finish_of_not_complete notComplete, version]
    exact unsettled

/-- An uninterrupted verification of a resolved version finishes it exactly when its
units have different keys and the manager does not refuse the version. When only the
keys are not different, whoever awaits the version waits forever. -/
theorem IsReachable.finished_iff (reachable : session.IsReachable) {base : Resolved}
    (latest : (session.manager number).latest = .resolved base) {n : Nat}
    (plan : Plan (Step n)) {outcome : Except Stop Unit} {after : Session}
    (ran : (SessionM.verifyEverything (plan.services (Step.perform n)) number).run session =
      (outcome, after))
    (uninterrupted : session.Uninterrupted number outcome after) :
    outcome = .ok () ∧
    (after.Finished number ↔
      (base.units.map Declaration.key).Nodup ∧
        ¬(session.manager number).Refuses base.compilation.version) ∧
    (¬(base.units.map Declaration.key).Nodup →
      ¬(session.manager number).Refuses base.compilation.version →
      (SessionM.awaitVerified number).run after = (.error .stuck, after)) := by
  by_cases refuses : (session.manager number).Refuses base.compilation.version
  · have begins : (session.manager number).latest.begun? = some (.start base) := by
      rw [latest]
      rfl
    rw [SessionM.run_verifyEverything_of_begun begins refuses] at ran
    cases ran
    refine ⟨rfl, ⟨?_, ?_⟩, ?_⟩
    · rintro ⟨last, isVerified, _⟩
      rw [latest] at isVerified
      cases isVerified
    · rintro ⟨_, accepts⟩
      exact absurd refuses accepts
    · intro _ accepts
      exact absurd refuses accepts
  · obtain ⟨ended, last, isVerified, completeIff, finishes, waits⟩ :=
      reachable.verified_of_accepts latest refuses plan ran uninterrupted
    refine ⟨ended, ⟨?_, ?_⟩, ?_⟩
    · rintro ⟨other, isOther, complete, _⟩
      rw [isVerified] at isOther
      cases isOther
      exact ⟨completeIff.mp complete, refuses⟩
    · rintro ⟨different, _⟩
      exact finishes (completeIff.mpr different)
    · intro shared _
      exact waits fun complete => shared (completeIff.mp complete)

/-- A version with two units of different keys is finished, with a result for each of them. -/
theorem finished_sample :
    let verified := SessionM.verifySample.run pairSample
    (verified.2.manager 0).latest.begun?.map Verified.completed = some 2 ∧
      verified.2.Finished 0 := by
  have resolved : (pairSample.manager 0).latest.stage = .resolved := by
    decide +kernel
  have different : (((pairSample.manager 0).latest.begun?.map
      fun started => started.resolved.units.map Declaration.key).getD []).Nodup := by
    decide +kernel
  have accepts : ¬(pairSample.manager 0).Refuses (pairSample.manager 0).latest.version := by
    decide +kernel
  have uninterrupted : pairSample.Uninterrupted 0 (SessionM.verifySample.run pairSample).1
      (SessionM.verifySample.run pairSample).2 := by
    decide +kernel
  have counted : ((SessionM.verifySample.run pairSample).2.manager 0).latest.begun?.map
      Verified.completed = some 2 := by
    decide +kernel
  have reachable := isReachable_pairSample
  generalize pairSample = session at *
  cases latest : (session.manager 0).latest with
  | unloaded | parsed | verified => simp [latest, Snapshot.stage] at resolved
  | resolved base =>
      rw [latest] at different accepts
      exact ⟨counted,
        (reachable.finished_iff latest _ rfl uninterrupted).2.1.mpr ⟨different, accepts⟩⟩

/-- A version in which two units share a key is never finished: an uninterrupted
verification leaves it incomplete, and whoever awaits it waits forever. -/
theorem never_finished_sample :
    let session := sample 2 [false]
    let verified := SessionM.verifySample.run session
    (session.manager 0).latest.stage = .resolved ∧
      session.Uninterrupted 0 verified.1 verified.2 ∧
      (verified.2.manager 0).latest.stage = .verified ∧
      (verified.2.manager 0).latest.begun?.map Verified.complete = some false ∧
      (verified.2.manager 0).settled < (verified.2.manager 0).latest.version ∧
      cameBack ((SessionM.awaitVerified 0).run verified.2).1 = false := by
  decide +kernel

end Session

end Proofline
