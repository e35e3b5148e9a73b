import Proofline.Session.Publishing

/-!
# Announcements

A snapshot that becomes the latest one is announced: the publisher is told
what the snapshot shows, document by document in the order of names. The
publisher may fail, which ends the announcement, or cancel the running step;
it changes nothing else. A snapshot that precedes the latest one is dropped.
-/

namespace Proofline

/-- What a publication says of which document. -/
def Publication.content (publication : Publication) : String × List Diagnostic :=
  (publication.uri, publication.diagnostics)

/-- What a snapshot has to say of which documents, in the order of their
names. Nothing is said about a version that is not parsed. -/
def Snapshot.announcements (snapshot : Snapshot) : List (String × List Diagnostic) :=
  if snapshot.stage = .unloaded then [] else snapshot.diagnostics.toList

/-- `publications` say `contents` about a version, one by one and in order, up
to the first one at which the publisher fails. -/
structure Announces (version : Int) (contents : List (String × List Diagnostic))
    (publications : List Publication) : Prop where
  inOrder : publications.map Publication.content <+: contents
  sameVersion : ∀ publication ∈ publications, publication.version = version
  failsLast : ∀ publication ∈ publications.dropLast, publication.failure = none
  complete : (∀ publication ∈ publications, publication.failure = none) →
    publications.map Publication.content = contents

namespace Announces

variable {version : Int} {contents : List (String × List Diagnostic)}
  {publications : List Publication} {publication : Publication}

theorem nil (version : Int) : Announces version [] [] where
  inOrder := List.prefix_rfl
  sameVersion := by simp
  failsLast := by simp
  complete _ := rfl

theorem single_of_failed (sameVersion : publication.version = version)
    (failed : publication.failure ≠ none) :
    Announces version (publication.content :: contents) [publication] where
  inOrder := by simp
  sameVersion := by simpa using sameVersion
  failsLast := by simp
  complete none_failed := absurd (none_failed publication (by simp)) failed

theorem cons (sameVersion : publication.version = version)
    (passed : publication.failure = none) (rest : Announces version contents publications) :
    Announces version (publication.content :: contents) (publication :: publications) where
  inOrder := by simpa using rest.inOrder
  sameVersion := by simpa [sameVersion] using rest.sameVersion
  failsLast := by
    cases publications with
    | nil => simp
    | cons second others =>
        rw [List.dropLast_cons_of_ne_nil (by simp)]
        simpa [passed] using rest.failsLast
  complete none_failed := by
    rw [List.map_cons, rest.complete fun other mem => none_failed other (by simp [mem])]

end Announces

/-- How an action that ends with an announcement ends. -/
def publisherOutcome {α : Type} (publications : List Publication) (value : α) :
    Except Stop α :=
  match publications.findSome? Publication.failure with
  | none => .ok value
  | some message => .error (.failed message)

/-- Whether the publisher has not been told to fail. -/
def Session.IsQuiet (session : Session) : Prop :=
  ∀ trigger ∈ session.triggers, trigger.failure = none

/-- What the publisher may do to a session: use up what it was told to do, and
cancel the running step. -/
structure PublisherActed (before after : Session) : Prop where
  same : after = { before with triggers := after.triggers, canceled := after.canceled }
  canceled : before.canceled = true → after.canceled = true
  quiet : before.IsQuiet → after.IsQuiet
  idle : before.triggers = [] → after.triggers = [] ∧ after.canceled = before.canceled

namespace PublisherActed

theorem refl (session : Session) : PublisherActed session session where
  same := rfl
  canceled := id
  quiet := id
  idle untold := ⟨untold, rfl⟩

theorem enter {before after : Session} (acted : PublisherActed before after)
    (events : List Event) : PublisherActed (before.enter events) (after.enter events) where
  same := by
    rw [acted.same]
    rfl
  canceled := acted.canceled
  quiet := acted.quiet
  idle := acted.idle

theorem trans {first second third : Session} (earlier : PublisherActed first second)
    (later : PublisherActed second third) : PublisherActed first third where
  same := by
    rw [later.same, earlier.same]
  canceled canceled := later.canceled (earlier.canceled canceled)
  quiet quiet := later.quiet (earlier.quiet quiet)
  idle untold := by
    have first := earlier.idle untold
    have second := later.idle first.1
    exact ⟨second.1, second.2.trans first.2⟩

theorem manager_eq {before after : Session} (acted : PublisherActed before after)
    (number : Nat) : after.manager number = before.manager number := by
  rw [acted.same]
  rfl

theorem chronicle_eq {before after : Session} (acted : PublisherActed before after) :
    after.chronicle = before.chronicle := by
  rw [acted.same]

end PublisherActed

namespace SessionM

theorem mem_of_mem_takeTrigger {uri : String} {triggers : List Trigger} {trigger : Trigger}
    (mem : trigger ∈ (takeTrigger uri triggers).2) :
    ∃ told ∈ triggers, told.failure = trigger.failure := by
  induction triggers with
  | nil => simp [takeTrigger] at mem
  | cons first rest ih =>
      unfold takeTrigger at mem
      split at mem
      · split at mem
        · rcases List.mem_cons.mp mem with rfl | mem
          · exact ⟨first, by simp, rfl⟩
          · exact ⟨trigger, by simp [mem], rfl⟩
        · exact ⟨trigger, by simp [mem], rfl⟩
      · rcases List.mem_cons.mp mem with rfl | mem
        · exact ⟨trigger, by simp, rfl⟩
        · rcases ih mem with ⟨told, toldMem, same⟩
          exact ⟨told, by simp [toldMem], same⟩

theorem mem_of_takeTrigger_eq_some {uri : String} {triggers : List Trigger} {trigger : Trigger}
    (taken : (takeTrigger uri triggers).1 = some trigger) : trigger ∈ triggers := by
  induction triggers with
  | nil => simp [takeTrigger] at taken
  | cons first rest ih =>
      unfold takeTrigger at taken
      split at taken
      · split at taken
        · simp at taken
        · simp_all
      · exact List.mem_cons_of_mem first (ih taken)

/-- One publication and what the publisher does at it. -/
theorem run_announce (number : Nat) (version : Int) (uri : String)
    (diagnostics : List Diagnostic) (session : Session) :
    ∃ publication : Publication,
      publication.content = (uri, diagnostics) ∧ publication.version = version ∧
      ((announce number version uri diagnostics).run session).1 =
        publisherOutcome [publication] () ∧
      PublisherActed (session.enter [.published number publication])
        ((announce number version uri diagnostics).run session).2 ∧
      (session.IsQuiet → publication.failure = none) := by
  let taken := takeTrigger uri session.triggers
  refine ⟨⟨uri, version, diagnostics, watchedState session uri, taken.1.bind Trigger.failure⟩,
    rfl, rfl, ?_⟩
  have remaining : session.IsQuiet → ∀ trigger ∈ taken.2, trigger.failure = none := by
    intro quiet trigger mem
    rcases mem_of_mem_takeTrigger mem with ⟨told, toldMem, same⟩
    exact same ▸ quiet told toldMem
  have untold : session.triggers = [] → taken = (none, []) := by
    intro none_told
    simp only [taken, none_told, takeTrigger]
  unfold announce
  simp only [run_bind, run_get, run_set, run_record]
  cases acting : taken.1 with
  | none =>
      simp only [run_pure]
      refine ⟨rfl, ⟨rfl, id, remaining, fun none_told => ?_⟩, fun _ => rfl⟩
      exact ⟨congrArg Prod.snd (untold none_told), rfl⟩
  | some trigger =>
      have told := mem_of_takeTrigger_eq_some acting
      have notUntold : session.triggers ≠ [] := List.ne_nil_of_mem told
      rcases trigger with ⟨document, after, _ | message⟩
      · simp only [run_cancel]
        exact ⟨rfl, ⟨rfl, fun _ => rfl, remaining, fun none_told => absurd none_told notUntold⟩,
          fun _ => rfl⟩
      · simp only [run_throw]
        refine ⟨rfl, ⟨rfl, id, remaining, fun none_told => absurd none_told notUntold⟩, ?_⟩
        intro quiet
        exact absurd (quiet _ told) (by simp)

/-- An announcement goes on until the publisher fails. -/
theorem run_announceAll (number : Nat) (version : Int)
    (contents : List (String × List Diagnostic)) (session : Session) :
    ∃ publications,
      Announces version contents publications ∧
      ((announceAll number version contents).run session).1 = publisherOutcome publications () ∧
      PublisherActed (session.enter (publications.map (.published number)))
        ((announceAll number version contents).run session).2 ∧
      (session.IsQuiet → ∀ publication ∈ publications, publication.failure = none) := by
  induction contents generalizing session with
  | nil =>
      refine ⟨[], .nil version, rfl, ?_, by simp⟩
      simpa [announceAll] using PublisherActed.refl session
  | cons content rest ih =>
      rcases content with ⟨uri, diagnostics⟩
      rcases run_announce number version uri diagnostics session with
        ⟨publication, content, sameVersion, ends, acted, quiet⟩
      rw [announceAll, run_bind, ← content]
      rcases announced : (announce number version uri diagnostics).run session with
        ⟨outcome, middle⟩
      rw [announced] at ends acted
      cases failed : publication.failure with
      | some message =>
          obtain rfl : outcome = .error (.failed message) := by
            simpa [publisherOutcome, failed] using ends
          exact ⟨[publication], .single_of_failed sameVersion (by simp [failed]),
            by simp [publisherOutcome, failed], acted, by simpa using quiet⟩
      | none =>
          obtain rfl : outcome = .ok () := by simpa [publisherOutcome, failed] using ends
          rcases ih middle with ⟨publications, announces, restEnds, restActed, restQuiet⟩
          refine ⟨publication :: publications, .cons sameVersion failed announces, ?_, ?_, ?_⟩
          · simpa [publisherOutcome, failed] using restEnds
          · have both := (acted.enter (publications.map (.published number))).trans restActed
            simpa [Session.enter_enter] using both
          · intro isQuiet other mem
            rcases List.mem_cons.mp mem with rfl | mem
            · exact failed
            · exact restQuiet (acted.quiet isQuiet) other mem

/-- A snapshot that precedes the latest one is dropped. -/
theorem run_publish_of_precedes {number : Nat} {snapshot : Snapshot} {session : Session}
    (stale : snapshot.Precedes (session.manager number).latest) :
    ∃ lines : List String,
      (publish number snapshot).run session = (.ok false, session.enter (lines.map .logged)) := by
  simp only [publish, run_bind, run_manager, if_pos stale, run_log, run_pure]
  exact ⟨_, rfl⟩

/-- A snapshot that does not precede the latest one becomes the latest one,
whether or not the publisher fails. -/
theorem run_publish_of_not_precedes {number : Nat} {snapshot : Snapshot} {session : Session}
    (current : ¬snapshot.Precedes (session.manager number).latest) :
    ∃ publications,
      Announces snapshot.version snapshot.announcements publications ∧
      ((publish number snapshot).run session).1 = publisherOutcome publications true ∧
      PublisherActed
        ((session.change number (.accepted snapshot)).enter
          (publications.map (.published number)))
        ((publish number snapshot).run session).2 ∧
      (session.IsQuiet → ∀ publication ∈ publications, publication.failure = none) := by
  rw [publish, run_bind, run_manager]
  simp only [if_neg current]
  rw [run_bind, run_change]
  simp only
  split
  · rename_i unloaded
    refine ⟨[], ?_, rfl, ?_, by simp⟩
    · rw [Snapshot.announcements, if_pos unloaded]
      exact .nil snapshot.version
    · simpa using PublisherActed.refl _
  · rename_i loaded
    rcases run_announceAll number snapshot.version snapshot.diagnostics.toList
        (session.change number (.accepted snapshot)) with
      ⟨publications, announces, ends, acted, quiet⟩
    rcases announced : (announceAll number snapshot.version snapshot.diagnostics.toList).run
        (session.change number (.accepted snapshot)) with ⟨outcome, after⟩
    rw [announced] at ends acted
    obtain rfl : outcome = publisherOutcome publications () := ends
    rw [Snapshot.announcements, if_neg loaded, run_bind, announced]
    refine ⟨publications, announces, ?_⟩
    unfold publisherOutcome
    cases publications.findSome? Publication.failure with
    | none => exact ⟨rfl, acted, quiet⟩
    | some message => exact ⟨rfl, acted, quiet⟩

end SessionM

end Proofline
