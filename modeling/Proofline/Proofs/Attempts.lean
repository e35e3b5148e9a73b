import Mathlib.Data.List.Induction
import Proofline.Proofs.History

/-!
# Attempts to verify

A manager marks the version it verifies, and takes the mark back when the attempt
ends. An attempt is abandoned when the publisher fails at a snapshot of it; then
the mark stays. At any time the marked version therefore tells of the newest
attempt alone, and only what begins another one puts one in progress.
-/

namespace Proofline

/-- How far an attempt to verify a version has come. -/
inductive Attempt.Phase where
  | inProgress
  | ended
  /-- The publisher failed, so the attempt went no further. -/
  | abandoned
deriving DecidableEq, Repr

/-- An attempt to verify a version. -/
structure Attempt where
  version : Int
  phase : Attempt.Phase := .inProgress
deriving DecidableEq, Repr

namespace Attempt

/-- The attempt after verification of a version ended. -/
def endAt (version : Int) (attempt : Attempt) : Attempt :=
  if attempt.version = version then { attempt with phase := .ended } else attempt

/-- The attempt after the publisher failed at a verified snapshot of a version. -/
def abandonAt (version : Int) (attempt : Attempt) : Attempt :=
  if attempt.version = version ∧ attempt.phase = .inProgress then
    { attempt with phase := .abandoned }
  else
    attempt

/-- The version that is marked as being verified after an attempt. -/
def marked? (attempt : Attempt) : Option Int :=
  if attempt.phase = .ended then none else some attempt.version

@[simp]
theorem marked?_abandonAt (version : Int) (attempt : Attempt) :
    (attempt.abandonAt version).marked? = attempt.marked? := by
  unfold abandonAt
  split
  · rename_i inProgress
    simp [marked?, inProgress.2]
  · rfl

theorem marked?_endAt (version : Int) (attempt : Attempt) :
    (attempt.endAt version).marked? =
      if attempt.marked? = some version then none else attempt.marked? := by
  unfold endAt
  split
  · rename_i same
    by_cases ended : attempt.phase = .ended
    · simp [marked?, ended]
    · simp [marked?, ended, same]
  · rename_i other
    by_cases ended : attempt.phase = .ended
    · simp [marked?, ended]
    · simp [marked?, ended, other]

/-- A version stays marked after an attempt that is in progress or abandoned. -/
theorem bind_marked?_eq_some_iff {newest : Option Attempt} {version : Int} :
    newest.bind marked? = some version ↔
      newest = some { version, phase := .inProgress } ∨
        newest = some { version, phase := .abandoned } := by
  cases newest with
  | none => simp
  | some attempt =>
      rcases attempt with ⟨attempted, phase⟩
      cases phase <;> simp [marked?]

/-- No attempt is put in progress by ending one. -/
theorem inProgress_of_endAt {version : Int} {attempt : Attempt}
    (inProgress : (attempt.endAt version).phase = .inProgress) :
    attempt.endAt version = attempt ∧ attempt.version ≠ version := by
  unfold endAt at inProgress ⊢
  split at inProgress
  · contradiction
  · rename_i other
    exact ⟨if_neg other, other⟩

/-- No attempt is put in progress by abandoning one. -/
theorem inProgress_of_abandonAt {version : Int} {attempt : Attempt}
    (inProgress : (attempt.abandonAt version).phase = .inProgress) :
    attempt.abandonAt version = attempt ∧ attempt.version ≠ version := by
  unfold abandonAt at inProgress ⊢
  split at inProgress
  · contradiction
  · rename_i other
    exact ⟨if_neg other, fun same => other ⟨same, inProgress⟩⟩

end Attempt

/-- Whether the publisher failed at a publication of a manager. -/
def Event.publisherFailure? (number : Nat) : Event → Option String
  | .published manager publication => if manager = number then publication.failure else none
  | _ => none

/-- Whether a manager begins to verify a version at an event. -/
def Event.beginsVerification (number : Nat) : Event → Bool
  | .changed manager (.verificationBegun _) => manager = number
  | _ => false

/-- The newest attempt of a manager after an entry, given the newest one before. -/
def ChronicleEntry.attemptAfter (number : Nat) (newest : Option Attempt)
    (entry : ChronicleEntry) : Option Attempt :=
  match entry.event with
  | .changed manager (.verificationBegun version) =>
      if manager = number then some { version } else newest
  | .changed manager (.verificationEnded version) =>
      if manager = number then newest.map (Attempt.endAt version) else newest
  | event =>
      if (event.publisherFailure? number).isSome ∧ (entry.latest number).stage = .verified then
        newest.map (Attempt.abandonAt (entry.latest number).version)
      else
        newest

/-- The newest attempt of a manager to verify a version according to a chronicle. -/
def newestAttempt (number : Nat) (entries : List ChronicleEntry) : Option Attempt :=
  entries.foldl (ChronicleEntry.attemptAfter number) none

section NewestAttempt

variable {number : Nat} {entries later : List ChronicleEntry} {entry : ChronicleEntry}

theorem newestAttempt_append (number : Nat) (entries later : List ChronicleEntry) :
    newestAttempt number (entries ++ later) =
      later.foldl (ChronicleEntry.attemptAfter number) (newestAttempt number entries) :=
  List.foldl_append

theorem newestAttempt_append_singleton (number : Nat) (entries : List ChronicleEntry)
    (entry : ChronicleEntry) :
    newestAttempt number (entries ++ [entry]) =
      entry.attemptAfter number (newestAttempt number entries) :=
  newestAttempt_append number entries [entry]

/-- A failure of the publisher at a verified snapshot abandons the attempt to verify its
version. -/
theorem ChronicleEntry.attemptAfter_of_failure
    (failed : (entry.event.publisherFailure? number).isSome = true)
    (isVerified : (entry.latest number).stage = .verified) (newest : Option Attempt) :
    entry.attemptAfter number newest =
      newest.map (Attempt.abandonAt (entry.latest number).version) := by
  unfold attemptAfter
  split
  · rename_i isBegun
    simp [isBegun, Event.publisherFailure?] at failed
  · rename_i isEnded
    simp [isEnded, Event.publisherFailure?] at failed
  · exact if_pos ⟨failed, isVerified⟩

/-- Only what begins to verify puts an attempt in progress. -/
theorem ChronicleEntry.inProgress_of_attemptAfter {newest : Option Attempt} {attempt : Attempt}
    (continues : entry.event.beginsVerification number = false)
    (isNewest : entry.attemptAfter number newest = some attempt)
    (inProgress : attempt.phase = .inProgress) : newest = some attempt := by
  unfold attemptAfter at isNewest
  split at isNewest
  · rename_i manager version isBegun
    split at isNewest
    · rename_i same
      simp [Event.beginsVerification, isBegun, same] at continues
    · exact isNewest
  · split at isNewest
    · rcases Option.map_eq_some_iff.mp isNewest with ⟨before, wasNewest, rfl⟩
      rw [(Attempt.inProgress_of_endAt inProgress).1, wasNewest]
    · exact isNewest
  · split at isNewest
    · rcases Option.map_eq_some_iff.mp isNewest with ⟨before, wasNewest, rfl⟩
      rw [(Attempt.inProgress_of_abandonAt inProgress).1, wasNewest]
    · exact isNewest

theorem inProgress_of_append {attempt : Attempt}
    (continues : ∀ entry ∈ later, entry.event.beginsVerification number = false)
    (isNewest : newestAttempt number (entries ++ later) = some attempt)
    (inProgress : attempt.phase = .inProgress) :
    newestAttempt number entries = some attempt := by
  induction later generalizing entries with
  | nil => simpa using isNewest
  | cons entry rest ih =>
      have rested : newestAttempt number (entries ++ [entry]) = some attempt :=
        ih (fun other mem => continues other (by simp [mem])) (by simpa using isNewest)
      rw [newestAttempt_append_singleton] at rested
      exact entry.inProgress_of_attemptAfter (continues entry (by simp)) rested inProgress

/-- After a verification of a version ended, no attempt to verify it is in progress until
another one begins. -/
theorem not_inProgress_of_ended {version : Int}
    (isEnded : entry.event = .changed number (.verificationEnded version))
    (continues : ∀ entry ∈ later, entry.event.beginsVerification number = false) :
    newestAttempt number (entries ++ entry :: later) ≠ some { version } := by
  intro isNewest
  rw [List.append_cons] at isNewest
  have atEnd := inProgress_of_append continues isNewest rfl
  rw [newestAttempt_append_singleton, ChronicleEntry.attemptAfter, isEnded] at atEnd
  simp only [if_true] at atEnd
  rcases Option.map_eq_some_iff.mp atEnd with ⟨attempt, _, ended⟩
  obtain ⟨unchanged, other⟩ := Attempt.inProgress_of_endAt (congrArg Attempt.phase ended)
  exact other (congrArg Attempt.version (unchanged.symm.trans ended))

/-- After the publisher failed at a verified snapshot, no attempt to verify its version is in
progress until another one begins. -/
theorem not_inProgress_of_failure (failed : (entry.event.publisherFailure? number).isSome = true)
    (isVerified : (entry.latest number).stage = .verified)
    (continues : ∀ entry ∈ later, entry.event.beginsVerification number = false) :
    newestAttempt number (entries ++ entry :: later) ≠
      some { version := (entry.latest number).version } := by
  intro isNewest
  rw [List.append_cons] at isNewest
  have atFailure := inProgress_of_append continues isNewest rfl
  rw [newestAttempt_append_singleton, ChronicleEntry.attemptAfter_of_failure failed isVerified]
    at atFailure
  rcases Option.map_eq_some_iff.mp atFailure with ⟨attempt, _, abandoned⟩
  obtain ⟨unchanged, other⟩ :=
    Attempt.inProgress_of_abandonAt (congrArg Attempt.phase abandoned)
  exact other (congrArg Attempt.version (unchanged.symm.trans abandoned))

/-- An attempt is abandoned only when the publisher fails. -/
theorem exists_failure_of_abandoned {attempt : Attempt}
    (isNewest : newestAttempt number entries = some attempt)
    (abandoned : attempt.phase = .abandoned) :
    ∃ entry ∈ entries, entry.event.publisherFailure? number ≠ none ∧
      (entry.latest number).stage = .verified ∧
      (entry.latest number).version = attempt.version := by
  induction entries using List.reverseRecOn generalizing attempt with
  | nil => simp [newestAttempt] at isNewest
  | append_singleton entries entry ih =>
      have earlier {before : Attempt} (wasNewest : newestAttempt number entries = some before)
          (phase : before.phase = .abandoned) (version : before.version = attempt.version) :
          ∃ entry' ∈ entries ++ [entry], entry'.event.publisherFailure? number ≠ none ∧
            (entry'.latest number).stage = .verified ∧
            (entry'.latest number).version = attempt.version := by
        rcases ih wasNewest phase with ⟨cause, mem, failed, stage, same⟩
        exact ⟨cause, by simp [mem], failed, stage, same.trans version⟩
      rw [newestAttempt_append_singleton] at isNewest
      unfold ChronicleEntry.attemptAfter at isNewest
      split at isNewest
      · split at isNewest
        · cases isNewest
          contradiction
        · exact earlier isNewest abandoned rfl
      · split at isNewest
        · rcases Option.map_eq_some_iff.mp isNewest with ⟨before, wasNewest, rfl⟩
          unfold Attempt.endAt at abandoned ⊢
          split at abandoned
          · contradiction
          · rename_i other
            exact earlier wasNewest abandoned (by rw [Attempt.endAt, if_neg other])
        · exact earlier isNewest abandoned rfl
      · split at isNewest
        · rename_i failing
          rcases Option.map_eq_some_iff.mp isNewest with ⟨before, wasNewest, rfl⟩
          by_cases hit : before.version = (entry.latest number).version ∧
              before.phase = .inProgress
          · refine ⟨entry, by simp, Option.isSome_iff_ne_none.mp failing.1, failing.2, ?_⟩
            rw [Attempt.abandonAt, if_pos hit]
            exact hit.1.symm
          · rw [Attempt.abandonAt, if_neg hit] at abandoned
            refine earlier wasNewest abandoned ?_
            rw [Attempt.abandonAt, if_neg hit]
        · exact earlier isNewest abandoned rfl

end NewestAttempt

/-- What does not begin or end a verification leaves the mark as it was. -/
theorem ChronicleEntry.bind_marked?_attemptAfter {number : Nat} {entry : ChronicleEntry}
    (neither : ∀ manager change, entry.event = .changed manager change → manager = number →
      ∀ version, change ≠ .verificationBegun version ∧ change ≠ .verificationEnded version)
    (newest : Option Attempt) :
    (entry.attemptAfter number newest).bind Attempt.marked? =
      newest.bind Attempt.marked? := by
  unfold attemptAfter
  split
  · rename_i manager version isBegun
    split
    · rename_i same
      exact absurd rfl (neither manager _ isBegun same version).1
    · rfl
  · rename_i manager version isEnded
    split
    · rename_i same
      exact absurd rfl (neither manager _ isEnded same version).2
    · rfl
  · split
    · rw [Option.bind_map]
      exact congrArg (Option.bind newest) (funext fun _ => Attempt.marked?_abandonAt _ _)
    · rfl

namespace Successor

variable {before after : Table Nat Manager} {entries : List ChronicleEntry} {event : Event}

/-- What a manager marks as being verified goes along with its newest attempt. -/
theorem verifying_eq (next : Successor before event after) {number : Nat}
    (marks : (before.getD number default).verifying =
      (newestAttempt number entries).bind Attempt.marked?) (depth : Nat) :
    (after.getD number default).verifying =
      (newestAttempt number (entries ++ [{ depth, managers := after, event }])).bind
        Attempt.marked? := by
  rw [newestAttempt_append_singleton]
  cases next with
  | spared spares =>
      rw [ChronicleEntry.bind_marked?_attemptAfter _ (newestAttempt number entries), marks]
      rintro manager change rfl
      simp [Event.sparesManagers] at spares
  | @opened opened compilation new =>
      rw [ChronicleEntry.bind_marked?_attemptAfter (by simp) (newestAttempt number entries),
        ← marks, Std.ExtTreeMap.getD_insert]
      split
      · rename_i same
        obtain rfl : opened = number := by simpa using same
        rw [Std.ExtTreeMap.getD_eq_fallback new]
        rfl
      · rfl
  | @changed changed change known allowed =>
      by_cases same : changed = number
      · subst same
        rw [Std.ExtTreeMap.getD_insert_self]
        cases change with
        | verificationBegun version =>
            simp [Manager.after, ChronicleEntry.attemptAfter, Attempt.marked?]
        | verificationEnded version =>
            simp only [Manager.after, ChronicleEntry.attemptAfter, if_true, Option.bind_map]
            cases newest : newestAttempt changed entries with
            | none =>
                rw [newest] at marks
                simp [marks]
            | some attempt =>
                rw [newest, Option.bind_some] at marks
                rw [marks, Option.bind_some, Function.comp_apply, Attempt.marked?_endAt]
                split
                · rfl
                · exact marks
        | _ =>
            rw [ChronicleEntry.bind_marked?_attemptAfter (by simp), ← marks]
            rfl
      · rw [ChronicleEntry.bind_marked?_attemptAfter ?_ (newestAttempt number entries), ← marks,
          Std.ExtTreeMap.getD_insert, if_neg (by simpa using same)]
        rintro manager _ ⟨⟩ isNumber
        exact absurd isNumber same

end Successor

/-- The version that a manager marks as being verified is that of its newest attempt,
unless that has ended. -/
theorem History.verifying_eq {managers : Table Nat Manager} {entries : List ChronicleEntry}
    (history : History ∅ entries managers) (number : Nat) :
    (managers.getD number default).verifying =
      (newestAttempt number entries).bind Attempt.marked? := by
  generalize start : (∅ : Table Nat Manager) = first at history
  induction history with
  | refl =>
      subst start
      rfl
  | step depth earlier next ih => exact next.verifying_eq ih depth

namespace Session

/-- Whether the newest attempt of a manager is one to verify a version, and has come to a
certain phase. -/
def HasAttempted (number : Nat) (version : Int) (phase : Attempt.Phase) (session : Session) :
    Prop :=
  newestAttempt number session.chronicle = some { version, phase }

instance (number : Nat) (version : Int) (phase : Attempt.Phase) (session : Session) :
    Decidable (session.HasAttempted number version phase) :=
  inferInstanceAs (Decidable (_ = _))

end Session

end Proofline
