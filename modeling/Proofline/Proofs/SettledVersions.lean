import Proofline.Proofs.Settlement
import Proofline.Proofs.Uninterrupted

/-!
# Settled versions are not verified

A version that an update gave up stays settled for good. When a later update
resolves the same version, it counts as settled although nothing was verified,
and verifying it is turned away; so is verifying a negative version. These are
the only resolved versions that are neither verified nor left to be verified.
-/

namespace Proofline

/-- Whether the latest version of a manager is settled without having been
verified: because it is negative, or because an update gave it up. -/
def Manager.IsNeglected (number : Nat) (entries : List ChronicleEntry) (manager : Manager) :
    Prop :=
  ¬manager.IsVerified ∧
    (manager.latest.version < 0 ∨ GaveUp number manager.latest.version entries)

instance (number : Nat) (entries : List ChronicleEntry) (manager : Manager) :
    Decidable (manager.IsNeglected number entries) :=
  inferInstanceAs (Decidable (_ ∧ _))

/-- A latest version that is settled was verified, unless it is neglected. -/
theorem Accounted.isVerified_iff {number : Nat} {entries : List ChronicleEntry}
    {manager : Manager} (accounted : Accounted number entries manager) :
    (manager.latest.version ≤ manager.settled → manager.IsVerified) ↔
      ¬manager.IsNeglected number entries := by
  have settledIff := accounted.version_le_settled_iff
  constructor
  · rintro verified ⟨unverified, neglected⟩
    exact unverified (verified (settledIff.mpr (Or.inr neglected)))
  · intro notNeglected settled
    rcases settledIff.mp settled with verified | neglected
    · exact verified
    · by_cases verified : manager.IsVerified
      · exact verified
      · exact absurd ⟨verified, neglected⟩ notNeglected

namespace Session

variable {session : Session} {number : Nat}

/-- At every moment a settled latest version was verified, unless it is neglected.
Verifying a neglected version does nothing; an uninterrupted verification of a version
that is neither neglected nor verified records a result for every pending unit, unless
the version is being verified already. -/
theorem IsReachable.settledVersions (reachable : session.IsReachable) (number : Nat) :
    (∀ earlier entry later, session.chronicle = earlier ++ entry :: later →
      let manager := entry.managers.getD number default
      (manager.latest.version ≤ manager.settled → manager.IsVerified) ↔
        ¬manager.IsNeglected number (earlier ++ [entry])) ∧
    let manager := session.manager number
    ((manager.latest.version ≤ manager.settled → manager.IsVerified) ↔
      ¬manager.IsNeglected number session.chronicle) ∧
    ∀ verified, manager.latest.begun? = some verified →
      (manager.IsNeglected number session.chronicle → ∀ services,
        (SessionM.verifyEverything services number).run session = (.ok (), session)) ∧
      (¬manager.IsNeglected number session.chronicle → ¬manager.IsVerified →
        manager.verifying ≠ some manager.latest.version →
        ∀ (n : Nat) (plan : Plan (Step n)) outcome after,
          (SessionM.verifyEverything (plan.services (Step.perform n)) number).run session =
            (outcome, after) →
          session.Uninterrupted number outcome after →
          outcome = .ok () ∧ ∃ recorded,
            recorded.map Prod.fst = verified.pending verified.resolved.units ∧
            (after.manager number).latest = .verified (verified.record recorded)) := by
  have accounted := reachable.history.1.accounted number
  refine ⟨?_, accounted.isVerified_iff, ?_⟩
  · intro earlier entry later parts
    exact ((reachable.history.1.split parts).1.accounted number).isVerified_iff
  · intro verified begins
    constructor
    · rintro ⟨_, neglected⟩ services
      have settled : verified.compilation.version ≤ (session.manager number).settled := by
        rw [Snapshot.version_of_begun? begins]
        exact accounted.version_le_settled_iff.mpr (Or.inr neglected)
      exact SessionM.run_verifyEverything_of_begun begins (Or.inl settled)
    · intro notNeglected unverified idle n plan outcome after ran uninterrupted
      have accepts : ¬(session.manager number).Refuses verified.compilation.version := by
        rw [Snapshot.version_of_begun? begins]
        rintro (settled | verifying)
        · exact unverified (accounted.isVerified_iff.mpr notNeglected settled)
        · exact idle verifying
      obtain ⟨ended, recorded, all, finished⟩ := SessionM.run_verifyEverything_uninterrupted
        reachable.wellNumbered begins accepts ran uninterrupted
      refine ⟨ended, recorded, all, ?_⟩
      rw [finished, Manager.latest_finish]

/-- A version that was only ever resolved is verified. -/
theorem settledVersions_sample :
    ∃ verified recorded after,
      ((sample 1 [false]).manager 0).latest.begun? = some verified ∧
      SessionM.verifySample.run (sample 1 [false]) = (.ok (), after) ∧
      recorded.map Prod.fst = verified.pending verified.resolved.units ∧
      (after.manager 0).latest = .verified (verified.record recorded) := by
  have resolved : ((sample 1 [false]).manager 0).latest.begun?.isSome = true := by
    decide +kernel
  have unsettled : ¬((sample 1 [false]).manager 0).IsNeglected 0 (sample 1 [false]).chronicle ∧
      ¬((sample 1 [false]).manager 0).IsVerified ∧
      ((sample 1 [false]).manager 0).verifying ≠
        some ((sample 1 [false]).manager 0).latest.version := by
    decide +kernel
  have uninterrupted : (sample 1 [false]).Uninterrupted 0
      (SessionM.verifySample.run (sample 1 [false])).1
      (SessionM.verifySample.run (sample 1 [false])).2 := by
    decide +kernel
  have reachable := isReachable_sample 1 [false]
  generalize sample 1 [false] = session at *
  obtain ⟨verified, begins⟩ := Option.isSome_iff_exists.mp resolved
  obtain ⟨ended, recorded, all, latest⟩ :=
    ((reachable.settledVersions 0).2.2 verified begins).2 unsettled.1 unsettled.2.1
      unsettled.2.2 0 (.succeeding none) _ _ rfl uninterrupted
  exact ⟨verified, recorded, _, begins, Prod.ext ended rfl, all, latest⟩

/-- A version that was canceled and then resolved is settled without having been verified,
and verifying it does nothing. -/
theorem settled_without_verification :
    let session := sample 1 [true, false]
    (session.manager 0).latest.stage = .resolved ∧
      (session.manager 0).latest.version ≤ (session.manager 0).settled ∧
      ¬(session.manager 0).IsVerified ∧
      (SessionM.verifySample.run session).2.chronicle.length = session.chronicle.length := by
  decide +kernel

end Session

end Proofline
