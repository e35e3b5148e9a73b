import Proofline.Proofs.ScriptedVerifier

/-!
# Uninterrupted verification

A verification is uninterrupted when the step is not canceled, no newer version
comes, the publisher does not fail, and every call of the verifier comes back.
Unless the manager refuses the version, such a verification records a result for
every pending unit.
-/

namespace Proofline

namespace Session

/-- Whether nothing interrupted a verification of the latest version. -/
structure Uninterrupted (number : Nat) (before : Session) (outcome : Except Stop Unit)
    (after : Session) : Prop where
  /-- Every call of the verifier came back. -/
  comesBack : cameBack outcome = true
  notCanceled : after.canceled = false
  current : (after.manager number).latest.version = (before.manager number).latest.version
  published : ¬before.PublisherFailed number after

instance (number : Nat) (before : Session) (outcome : Except Stop Unit) (after : Session) :
    Decidable (before.Uninterrupted number outcome after) :=
  decidable_of_iff (cameBack outcome = true ∧ after.canceled = false ∧
      (after.manager number).latest.version = (before.manager number).latest.version ∧
      ¬before.PublisherFailed number after)
    ⟨fun ⟨comesBack, notCanceled, current, published⟩ =>
        ⟨comesBack, notCanceled, current, published⟩,
      fun ⟨comesBack, notCanceled, current, published⟩ =>
        ⟨comesBack, notCanceled, current, published⟩⟩

theorem Uninterrupted.not_disturbed {services : Services} {number : Nat}
    {before after : Session} {outcome : Except Stop Unit}
    (uninterrupted : before.Uninterrupted number outcome after) :
    ¬Disturbed services number before outcome after := by
  intro disturbed
  cases disturbed with
  | superseded newer _ => exact Int.ne_of_gt newer uninterrupted.current
  | publisherFailed failed _ => exact uninterrupted.published failed
  | lost stopped _ =>
      have comesBack := uninterrupted.comesBack
      rcases stopped with rfl | rfl
      · contradiction
      · contradiction

end Session

namespace SessionM

/-- An uninterrupted verification records a result for every pending unit. -/
theorem run_verifyEverything_uninterrupted {n : Nat} {plan : Plan (Step n)} {number : Nat}
    {session : Session} {verified : Verified} (wellNumbered : session.WellNumbered)
    (begins : (session.manager number).latest.begun? = some verified)
    (accepts : ¬(session.manager number).Refuses verified.compilation.version)
    {outcome : Except Stop Unit} {after : Session}
    (ran : (verifyEverything (plan.services (Step.perform n)) number).run session =
      (outcome, after))
    (uninterrupted : session.Uninterrupted number outcome after) :
    outcome = .ok () ∧ ∃ recorded,
      recorded.map Prod.fst = verified.pending verified.resolved.units ∧
      after.manager number = (session.manager number).finish (verified.record recorded) := by
  rcases concludes_verifyEverything (plan.verifies_services number n) wellNumbered begins accepts
      ran with disturbed | ⟨recorded, ended, finished, progress⟩
  · exact absurd disturbed uninterrupted.not_disturbed
  · refine ⟨ended, recorded, ?_, finished⟩
    rcases progress.all with all | canceled
    · exact all
    · rw [uninterrupted.notCanceled] at canceled
      contradiction

end SessionM

end Proofline
