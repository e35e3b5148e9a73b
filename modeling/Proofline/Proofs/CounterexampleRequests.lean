import Proofline.Proofs.Extraction
import Proofline.Proofs.Verifying

/-!
# How requests for counterexamples are served

A request verifies the project of its document, awaits the outcome and extracts the items. It
only looks at the session otherwise, and reports at most one failure of its own: the one that
ended the verification, or that of the extraction.
-/

namespace Proofline

/-- Whether items show all states of the counterexamples of a version, in order. -/
def Verified.IsShownBy (depth : Nat) (items : List Item) (verified : Verified) : Prop :=
  List.Forall₂ (Item.Shows depth) (Model.shown (Model.allStates verified.counterexamples)) items

/-- These are the items that extraction comes to unless it stops. -/
theorem Verified.isShownBy_iff {depth : Nat} {items : List Item} {verified : Verified} :
    verified.IsShownBy depth items ↔
      Model.extract verified.counterexamples depth false = .ok items := by
  rw [IsShownBy, Model.extract, Model.itemsOf_eq_ok_iff, Model.map_snd_numberedStates]

/-- What is said about the first of the states of a version that carries no position. -/
def Verified.unreadable? (verified : Verified) : Option String :=
  ((Model.numberedStates verified.counterexamples).find?
      fun numbered => numbered.2.IsUnreadable).map fun numbered =>
    "model " ++ Nat.repr numbered.1 ++ ", state '" ++ numbered.2.name ++ "': " ++
      ExtractionStop.complaint

/-- Something is said exactly if some state is to be shown and carries no position. -/
theorem Verified.isSome_unreadable?_iff {verified : Verified} :
    verified.unreadable?.isSome ↔
      ∃ state ∈ Model.allStates verified.counterexamples, state.IsUnreadable := by
  rw [unreadable?, Option.isSome_map, Model.isSome_find?_numberedStates_iff]

/-- Nothing is said about a version whose states are all shown. -/
theorem Verified.IsShownBy.unreadable?_eq_none {depth : Nat} {items : List Item}
    {verified : Verified} (shows : verified.IsShownBy depth items) :
    verified.unreadable? = none := by
  have extracted := isShownBy_iff.mp shows
  rw [unreadable?, Option.map_eq_none_iff, Option.eq_none_iff_forall_ne_some]
  rintro ⟨model, state⟩ isFirst
  rw [Model.extract, Model.itemsOf_eq_error_iff.mpr ⟨model, state, isFirst, rfl⟩] at extracted
  cases extracted

namespace SessionM

variable {services : Services} {session middle : Session} {number : Nat} {uri : String}

/-- Awaiting a version leaves the session as it is, and does not fail. -/
theorem run_awaitVerified_cases (number : Nat) (session : Session) :
    (∃ awaited, (awaitVerified number).run session = (.ok awaited, session)) ∨
      (awaitVerified number).run session = (.error .stuck, session) := by
  cases settled : (session.manager number).isSettled (session.manager number).latest.version with
  | true => exact Or.inl ⟨_, run_awaitVerified_of_isSettled settled⟩
  | false =>
      rw [run_awaitVerified_of_not_isSettled settled]
      cases session.canceled with
      | true => exact Or.inl ⟨none, rfl⟩
      | false => exact Or.inr rfl

/-- What comes of extracting the items of a version that was verified. -/
theorem run_itemsOfVerified (uri : String) (depth : Nat) (verified : Verified)
    (session : Session) :
    (∃ (items : List Item) (lines : List String), verified.IsShownBy depth items ∧
        (itemsOfVerified uri depth verified).run session =
          (.ok items, session.enter (lines.map .logged))) ∨
      (session.canceled = true ∧
        (itemsOfVerified uri depth verified).run session = (.ok [], session)) ∨
      ∃ message, verified.unreadable? = some message ∧
        (itemsOfVerified uri depth verified).run session =
          (.ok [], session.enter [.failureReported counterexampleTag message]) := by
  rw [itemsOfVerified]
  split
  · rename_i none_found
    refine Or.inl ⟨[], _, ?_, by rw [run_bind, run_log]; rfl⟩
    simp [Verified.IsShownBy, List.isEmpty_iff.mp none_found, Model.allStates, Model.shown]
  rw [run_bind, run_isCanceled]
  simp only [Model.extract]
  cases canceled : session.canceled with
  | true =>
      refine Or.inr (Or.inl ⟨rfl, ?_⟩)
      rcases Model.itemsOf_canceled depth (Model.numberedStates verified.counterexamples) with
        extracted | extracted
      · rw [extracted, run_pure]
      · rw [extracted, run_pure]
  | false =>
      cases extracted : Model.itemsOf depth false
          (Model.numberedStates verified.counterexamples) with
      | ok items => exact Or.inl ⟨items, [], Verified.isShownBy_iff.mpr extracted, by simp⟩
      | error stop =>
          rcases Model.itemsOf_eq_error_iff.mp extracted with ⟨model, state, isFirst, rfl⟩
          refine Or.inr (Or.inr ⟨_, by rw [Verified.unreadable?, isFirst]; rfl, ?_⟩)
          simp only [reportFailure, run_bind, run_record, run_pure]

/-- No project belongs to the document. -/
theorem run_serveCounterexamples_of_unknown (depth : Nat)
    (unknown : session.findProject? uri = none) :
    ∃ lines : List String, ∀ services, (serveCounterexamples services uri depth).run session =
      (.ok [], session.enter (lines.map .logged)) := by
  refine ⟨((session.options.logger counterexampleTag).line? .warning
    ("counterexamples requested for unknown document " ++ uri)).toList, fun services => ?_⟩
  rw [serveCounterexamples, run_bind, run_attempt, counterexamples, run_bind, run_get]
  simp only [unknown, run_bind, run_log, run_pure]

section Found

variable (depth : Nat) (found : session.findProject? uri = some number)

include found

/-- A request for a document of a project reports what fails on the way. -/
theorem run_serveCounterexamples_of_found :
    (serveCounterexamples services uri depth).run session =
      match (counterexamplesOf services number uri depth).run session with
      | (.error (.failed message), after) =>
          (.ok [], after.enter [.failureReported counterexampleTag message])
      | served => served := by
  rw [serveCounterexamples, run_bind, run_attempt, counterexamples, run_bind, run_get]
  simp only [found]
  rcases (counterexamplesOf services number uri depth).run session with
    ⟨(message | _ | _) | items, after⟩ <;> rfl

theorem run_serveCounterexamples_of_failed {message : String}
    (failed : (verifyEverything services number).run session =
      (.error (.failed message), middle)) :
    (serveCounterexamples services uri depth).run session =
      (.ok [], middle.enter [.failureReported counterexampleTag message]) := by
  rw [run_serveCounterexamples_of_found depth found, counterexamplesOf, run_bind, failed]

variable (verifies : (verifyEverything services number).run session = (.ok (), middle))

include verifies

/-- A request is answered with an empty list if nothing is delivered. -/
theorem run_serveCounterexamples_of_unverified
    (awaits : (awaitVerified number).run middle = (.ok none, middle)) :
    (serveCounterexamples services uri depth).run session =
      (.ok [], middle.enter (((middle.options.logger counterexampleTag).line? .warning
        ("no verified snapshot of " ++ (middle.manager number).project ++ " for " ++
          uri)).toList.map .logged)) := by
  rw [run_serveCounterexamples_of_found depth found, counterexamplesOf, run_bind, verifies]
  simp only [run_bind, awaits, run_manager, run_log, run_pure]

/-- A request is answered with the items of the version that is delivered. -/
theorem run_serveCounterexamples_of_verified {verified : Verified}
    (awaits : (awaitVerified number).run middle = (.ok (some verified), middle)) :
    (serveCounterexamples services uri depth).run session =
      (itemsOfVerified uri depth verified).run middle := by
  rw [run_serveCounterexamples_of_found depth found, counterexamplesOf, run_bind, verifies]
  simp only [run_bind, awaits]
  rcases run_itemsOfVerified uri depth verified middle with
    ⟨items, lines, _, ran⟩ | ⟨_, ran⟩ | ⟨message, _, ran⟩
  · rw [ran]
  · rw [ran]
  · rw [ran]

end Found

end SessionM

end Proofline
