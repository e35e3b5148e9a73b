import Proofline.Proofs.Managers

/-!
# Disturbed verification

Three things can keep a verification from the results of all pending units even
though the step is not canceled: a newer version comes first, the publisher
fails, or a call of the verifier does not come back. A verifier that runs no
steps of its own brings about none of them.
-/

namespace Proofline

/-- What is recorded of a call of the verifier. A failure counts as an internal
error. -/
def Outcome.recorded : Except String Outcome → Outcome
  | .ok outcome => outcome
  | .error _ => { status := .internalError }

namespace Services

/-- Calls of the verifier leave a manager alone that is verifying its latest
version, take back no cancellation, and yield certain outcomes. -/
structure Verifies (services : Services) (number : Nat)
    (yields : Declaration → Outcome → Prop) : Prop where
  steady : ∀ unit, SessionM.Respects (fun _ => Session.Steady number) (services.verify unit)
  staysCanceled : ∀ {unit session result after},
    (SessionM.attempt (services.verify unit)).run session = (.ok result, after) →
    session.canceled = true → after.canceled = true
  outcome : ∀ {unit session result after},
    (SessionM.attempt (services.verify unit)).run session = (.ok result, after) →
    yields unit (Outcome.recorded result)

/-- Every call of the verifier comes back without having run a step or given an
instruction to the publisher. -/
def VerifiesAlone (services : Services) : Prop :=
  ∀ unit session, ∃ result after,
    (SessionM.attempt (services.verify unit)).run session = (.ok result, after) ∧
      after.managers = session.managers ∧ after.triggers = session.triggers

/-- No call of the verifier cancels the step that made it. -/
def NeverCancels (services : Services) : Prop :=
  ∀ {unit session result after},
    (SessionM.attempt (services.verify unit)).run session = (.ok result, after) →
    after.canceled = session.canceled

end Services

namespace Session

/-- Whether the publisher failed at a publication of a manager between two
sessions. -/
def PublisherFailed (number : Nat) (before after : Session) : Prop :=
  ∃ entry ∈ after.chronicle.drop before.chronicle.length,
    entry.event.publisherFailure? number ≠ none

instance (number : Nat) (before after : Session) :
    Decidable (before.PublisherFailed number after) :=
  inferInstanceAs (Decidable (∃ entry ∈ _, _))

namespace PublisherFailed

variable {number : Nat} {before middle after : Session}

theorem of_later (failed : PublisherFailed number middle after)
    (continues : before.chronicle <+: middle.chronicle) :
    PublisherFailed number before after := by
  obtain ⟨entry, mem, hasFailed⟩ := failed
  refine ⟨entry, ?_, hasFailed⟩
  exact List.drop_subset_drop_left _ continues.length_le mem

theorem of_earlier (failed : PublisherFailed number before middle)
    (continues : middle.chronicle <+: after.chronicle) :
    PublisherFailed number before after := by
  obtain ⟨entry, mem, hasFailed⟩ := failed
  obtain ⟨others, chronicleEq⟩ := continues
  refine ⟨entry, ?_, hasFailed⟩
  rw [← chronicleEq, List.drop_append]
  exact List.mem_append_left _ mem

end PublisherFailed

/-- What a verifier that runs no steps of its own leaves to the publisher. -/
structure Calm (services : Services) (before after : Session) : Prop where
  quiet : before.IsQuiet → after.IsQuiet
  idle : before.triggers = [] → after.triggers = []
  uncanceled : services.NeverCancels → before.triggers = [] → after.canceled = before.canceled

/-- How a verification goes on that is not disturbed. -/
structure Proceeds (services : Services) (before after : Session) : Prop where
  staysCanceled : before.canceled = true → after.canceled = true
  calm : services.VerifiesAlone → Calm services before after

namespace Proceeds

variable {services : Services} {first second third : Session}

theorem of_same (canceled : second.canceled = first.canceled)
    (triggers : second.triggers = first.triggers) : Proceeds services first second where
  staysCanceled := canceled.trans
  calm _ :=
    { quiet := fun quiet trigger mem => quiet trigger (triggers ▸ mem)
      idle := triggers.trans
      uncanceled := fun _ _ => canceled }

theorem refl (session : Session) : Proceeds services session session :=
  of_same rfl rfl

theorem of_publisherActed (acted : PublisherActed first second) :
    Proceeds services first second where
  staysCanceled := acted.canceled
  calm _ :=
    { quiet := acted.quiet
      idle := fun idle => (acted.idle idle).1
      uncanceled := fun _ idle => (acted.idle idle).2 }

theorem trans (earlier : Proceeds services first second)
    (later : Proceeds services second third) : Proceeds services first third where
  staysCanceled canceled := later.staysCanceled (earlier.staysCanceled canceled)
  calm alone :=
    { quiet := fun quiet => (later.calm alone).quiet ((earlier.calm alone).quiet quiet)
      idle := fun idle => (later.calm alone).idle ((earlier.calm alone).idle idle)
      uncanceled := fun never idle =>
        ((later.calm alone).uncanceled never ((earlier.calm alone).idle idle)).trans
          ((earlier.calm alone).uncanceled never idle) }

end Proceeds

/-- What can keep an action from verifying the latest version of a manager, and
what it cannot be due to. -/
inductive Disturbed {α : Type} (services : Services) (number : Nat) (before : Session)
    (outcome : Except Stop α) (after : Session) : Prop
  /-- A newer version came first. -/
  | superseded
      (newer : (before.manager number).latest.version < (after.manager number).latest.version)
      (cause : ¬services.VerifiesAlone)
  | publisherFailed (failed : PublisherFailed number before after)
      (cause : services.VerifiesAlone → ¬before.IsQuiet)
  /-- A call of the verifier did not come back. -/
  | lost (stopped : outcome = .error .stuck ∨ outcome = .error .misused)
      (cause : ¬services.VerifiesAlone)

namespace Disturbed

variable {α β : Type} {services : Services} {number : Nat} {before middle after : Session}
  {outcome : Except Stop α}

theorem of_later (disturbed : Disturbed services number middle outcome after)
    (known : before.Knows number) (evolves : before.Evolves middle)
    (proceeds : Proceeds services before middle) :
    Disturbed services number before outcome after := by
  cases disturbed with
  | superseded newer cause =>
      exact .superseded (Int.lt_of_le_of_lt (evolves.version_le known) newer) cause
  | publisherFailed failed cause =>
      apply Disturbed.publisherFailed (failed.of_later evolves.chronicle_grows)
      intro alone quiet
      exact cause alone ((proceeds.calm alone).quiet quiet)
  | lost stopped cause => exact .lost stopped cause

theorem of_earlier {last : Except Stop β}
    (disturbed : Disturbed services number before outcome middle)
    (versions : (middle.manager number).latest.version ≤ (after.manager number).latest.version)
    (continues : middle.chronicle <+: after.chronicle)
    (stops : ∀ stop, outcome = .error stop → last = .error stop) :
    Disturbed services number before last after := by
  cases disturbed with
  | superseded newer cause => exact .superseded (Int.lt_of_lt_of_le newer versions) cause
  | publisherFailed failed cause => exact .publisherFailed (failed.of_earlier continues) cause
  | lost stopped cause => exact .lost (stopped.imp (stops _) (stops _)) cause

/-- A verifier that runs no steps is disturbed only by a publisher that was told to
fail. -/
theorem not_of_alone (alone : services.VerifiesAlone) (quiet : before.IsQuiet) :
    ¬Disturbed services number before outcome after := by
  rintro (⟨_, cause⟩ | ⟨_, cause⟩ | ⟨_, cause⟩)
  · exact cause alone
  · exact cause alone quiet
  · exact cause alone

end Disturbed

end Session

end Proofline
