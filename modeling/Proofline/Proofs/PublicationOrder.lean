import Mathlib.Data.List.Chain
import Proofline.Proofs.Managers

/-!
# The order of publications

Over a whole run the latest snapshot of a manager never gives way to one that
precedes it, however updates and verifications overtake each other. Since each
snapshot is announced as soon as it is accepted, before anything else happens
to a manager, nothing that is published ever belongs to an older version than
what was published before.
-/

namespace Proofline

/-- The snapshot that a manager accepts at an event. -/
def Event.accepted? (number : Nat) : Event → Option Snapshot
  | .changed manager (.accepted snapshot) => if manager = number then some snapshot else none
  | _ => none

namespace Dispatch

/-- The snapshot that is accepted. -/
def accepted? : Dispatch → Option Snapshot
  | accepted snapshot => some snapshot
  | published _ => none

/-- The version that is accepted or published. -/
def version : Dispatch → Int
  | accepted snapshot => snapshot.version
  | published publication => publication.version

end Dispatch

namespace Announcement

theorem filterMap_accepted? (announcement : Announcement) :
    announcement.dispatches.filterMap Dispatch.accepted? = [announcement.snapshot] := by
  simp [dispatches, Dispatch.accepted?]

/-- All of a faithful announcement belongs to the version of its snapshot. -/
theorem IsFaithful.version_eq {announcement : Announcement} (faithful : announcement.IsFaithful)
    {dispatch : Dispatch} (mem : dispatch ∈ announcement.dispatches) :
    dispatch.version = announcement.snapshot.version := by
  rcases List.mem_cons.mp mem with rfl | mem
  · rfl
  · rcases List.mem_map.mp mem with ⟨publication, published, rfl⟩
    exact faithful.sameVersion publication published

end Announcement

/-- The snapshots a manager accepts according to a chronicle. -/
def acceptances (number : Nat) (entries : List ChronicleEntry) : List Snapshot :=
  entries.filterMap fun entry => entry.event.accepted? number

theorem filterMap_dispatches (number : Nat) (entries : List ChronicleEntry) :
    (dispatches number entries).filterMap Dispatch.accepted? = acceptances number entries := by
  rw [dispatches, acceptances, List.filterMap_filterMap]
  congr 1
  funext entry
  cases entry.event with
  | changed manager change =>
      cases change with
      | accepted snapshot =>
          simp only [Event.dispatch?, Event.accepted?]
          split <;> rfl
      | _ => rfl
  | published manager publication =>
      simp only [Event.dispatch?, Event.accepted?]
      split <;> rfl
  | _ => rfl

namespace Successor

variable {before after : Table Nat Manager} {event : Event}

/-- The latest snapshot of a manager changes only when another one is
accepted. -/
theorem latest_eq (next : Successor before event after) {number : Nat}
    (known : number ∈ before) :
    (after.getD number default).latest =
      (event.accepted? number).getD (before.getD number default).latest := by
  cases next with
  | spared spares =>
      cases event with
      | changed _ _ => simp [Event.sparesManagers] at spares
      | _ => rfl
  | @opened opened _ new =>
      have ne : opened ≠ number := fun same => new (same ▸ known)
      simp [Std.ExtTreeMap.getD_insert, ne, Event.accepted?]
  | @changed changed change _ _ =>
      by_cases same : changed = number
      · rw [same, Std.ExtTreeMap.getD_insert_self]
        cases change with
        | verificationEnded version =>
            simp only [Manager.after, Event.accepted?]
            split <;> rfl
        | accepted _ => simp [Manager.after, Event.accepted?]
        | _ => rfl
      · cases change <;> simp [Std.ExtTreeMap.getD_insert, same, Event.accepted?]

/-- A manager that accepts a snapshot exists. -/
theorem mem_of_accepted (next : Successor before event after) {number : Nat}
    {snapshot : Snapshot} (accepted : event.accepted? number = some snapshot) :
    number ∈ before := by
  cases next with
  | spared spares => cases event <;> simp_all [Event.accepted?, Event.sparesManagers]
  | opened => simp [Event.accepted?] at accepted
  | changed known _ =>
      unfold Event.accepted? at accepted
      split at accepted
      · rename_i isAcceptance
        obtain ⟨rfl, _⟩ := Event.changed.inj isAcceptance
        rcases Option.ite_none_right_eq_some.mp accepted with ⟨rfl, _⟩
        exact known
      · contradiction

/-- Nothing is loaded of a manager that did not exist before. -/
theorem stage_of_not_mem (next : Successor before event after) {number : Nat}
    (unknown : number ∉ before) : (after.getD number default).latest.stage = .unloaded := by
  cases next with
  | spared =>
      rw [Std.ExtTreeMap.getD_eq_fallback unknown]
      rfl
  | opened =>
      rw [Std.ExtTreeMap.getD_insert]
      split
      · rfl
      · rw [Std.ExtTreeMap.getD_eq_fallback unknown]
        rfl
  | @changed changed _ known =>
      have ne : changed ≠ number := fun same => unknown (same ▸ known)
      rw [Std.ExtTreeMap.getD_insert, if_neg (by simpa using ne),
        Std.ExtTreeMap.getD_eq_fallback unknown]
      rfl

end Successor

namespace History

variable {first second : Table Nat Manager} {entries : List ChronicleEntry}

/-- The latest snapshot changes from entry to entry only when another one is
accepted. -/
theorem isChain_latest (history : History first entries second) (number : Nat) :
    entries.IsChain fun earlier later => number ∈ earlier.managers →
      later.latest number = (later.event.accepted? number).getD (earlier.latest number) := by
  induction history with
  | refl => exact .nil
  | step depth earlier next ih =>
      refine List.isChain_append.mpr ⟨ih, .singleton _, ?_⟩
      rintro last isLast _ ⟨⟩ known
      rcases List.getLast?_eq_some_iff.mp isLast with ⟨others, rfl⟩
      rw [ChronicleEntry.latest, ChronicleEntry.latest, (earlier.split rfl).2.eq_of_nil]
      rw [(earlier.split rfl).2.eq_of_nil] at known
      exact next.latest_eq known

/-- The latest snapshot never gives way to one that precedes it. -/
theorem pairwise_latest (history : History first entries second) (number : Nat) :
    entries.Pairwise fun earlier later => number ∈ earlier.managers →
      ¬(later.latest number).Precedes (earlier.latest number) := by
  induction history with
  | refl => exact .nil
  | step depth earlier next ih =>
      refine List.pairwise_append.mpr ⟨ih, List.pairwise_singleton _ _, ?_⟩
      intro entry mem last isLast known
      obtain rfl := List.mem_singleton.mp isLast
      rcases List.append_of_mem mem with ⟨before, after, rfl⟩
      exact (History.step depth (earlier.split rfl).2 next).not_precedes known

/-- A manager that accepts a snapshot exists, and has it as the latest one. -/
theorem latest_of_accepted (history : History first entries second) {number : Nat}
    {entry : ChronicleEntry} {snapshot : Snapshot} (mem : entry ∈ entries)
    (accepted : entry.event.accepted? number = some snapshot) :
    number ∈ entry.managers ∧ entry.latest number = snapshot := by
  induction history with
  | refl => contradiction
  | step depth earlier next ih =>
      rcases List.mem_append.mp mem with mem | isLast
      · exact ih mem
      · obtain rfl := List.mem_singleton.mp isLast
        have known := next.mem_of_accepted accepted
        refine ⟨next.mem known, ?_⟩
        rw [ChronicleEntry.latest, next.latest_eq known]
        simp only [accepted, Option.getD_some]

/-- A history ends with the managers of its last entry. -/
theorem managers_of_getLast? (history : History first entries second) {entry : ChronicleEntry}
    (isLast : entry ∈ entries.getLast?) : entry.managers = second := by
  rcases List.getLast?_eq_some_iff.mp isLast with ⟨others, rfl⟩
  exact (history.split rfl).2.eq_of_nil

/-- Snapshots are accepted in ascending order. -/
theorem pairwise_acceptances (history : History first entries second) (number : Nat) :
    (acceptances number entries).Pairwise fun earlier later => ¬later.Precedes earlier := by
  rw [acceptances, List.pairwise_filterMap]
  refine (history.pairwise_latest number).imp_of_mem ?_
  intro earlier later earlierMem laterMem ascends former formerAccepted latter latterAccepted
  rcases history.latest_of_accepted earlierMem formerAccepted with ⟨known, rfl⟩
  rcases history.latest_of_accepted laterMem latterAccepted with ⟨_, rfl⟩
  exact ascends known

end History

/-- Versions never decrease from one dispatch to a later one when snapshots are
accepted in ascending order and announced faithfully. -/
theorem AnnouncesFaithfully.pairwise_version {number : Nat} {entries : List ChronicleEntry}
    (faithful : AnnouncesFaithfully number entries)
    (ascending : (acceptances number entries).Pairwise fun earlier later =>
      ¬later.Precedes earlier) :
    (dispatches number entries).Pairwise fun earlier later =>
      earlier.version ≤ later.version := by
  rcases faithful with ⟨announcements, dispatchesEq, areFaithful⟩
  have acceptedEq : acceptances number entries = announcements.map Announcement.snapshot := by
    rw [← filterMap_dispatches, dispatchesEq, List.filterMap_flatMap]
    simp only [Announcement.filterMap_accepted?, List.map_eq_flatMap]
  rw [acceptedEq, List.pairwise_map] at ascending
  rw [dispatchesEq, List.pairwise_flatMap]
  constructor
  · intro announcement mem
    refine List.pairwise_of_forall_mem_list fun earlier earlierMem later laterMem => ?_
    have isFaithful := areFaithful announcement mem
    exact Int.le_of_eq <|
      (isFaithful.version_eq earlierMem).trans (isFaithful.version_eq laterMem).symm
  · refine ascending.imp_of_mem ?_
    intro former latter formerMem latterMem notBefore earlier earlierMem later laterMem
    rw [(areFaithful former formerMem).version_eq earlierMem,
      (areFaithful latter latterMem).version_eq laterMem]
    unfold Snapshot.Precedes at notBefore
    omega

/-- How a manager accepts and publishes snapshots over the chronicle of a
session. -/
structure Session.PublishesInOrder (session : Session) (number : Nat) : Prop where
  /-- The chronicle ends with the managers as they are. -/
  current : ∀ entry ∈ session.chronicle.getLast?, entry.managers = session.managers
  /-- The latest snapshot changes only when another one is accepted. -/
  changes : session.chronicle.IsChain fun earlier later => number ∈ earlier.managers →
    later.latest number = (later.event.accepted? number).getD (earlier.latest number)
  /-- The latest snapshot never gives way to one that precedes it. -/
  ascends : session.chronicle.Pairwise fun earlier later => number ∈ earlier.managers →
    ¬(later.latest number).Precedes (earlier.latest number)
  /-- The publisher is told of each accepted snapshot what it has to say, and
  of nothing else. -/
  faithful : AnnouncesFaithfully number session.chronicle
  /-- What is accepted or published never belongs to an older version than what
  was accepted or published before. -/
  versions : (dispatches number session.chronicle).Pairwise fun earlier later =>
    earlier.version ≤ later.version

/-- A snapshot is turned away: no manager changes, and nobody is told. -/
def Session.Drops (session : Session) (number : Nat) (snapshot : Snapshot) : Prop :=
  ∃ after, (SessionM.publish number snapshot).run session = (.ok false, after) ∧
    after.managers = session.managers ∧
    ∀ other, dispatches other after.chronicle = dispatches other session.chronicle

/-- A snapshot becomes the latest one and is announced, whether or not the
publisher fails. -/
def Session.Adopts (session : Session) (number : Nat) (snapshot : Snapshot) : Prop :=
  ∃ (publications : List Publication) (after : Session),
    (SessionM.publish number snapshot).run session =
      (publisherOutcome publications true, after) ∧
    (after.manager number).latest = snapshot ∧
    Announcement.IsFaithful ⟨snapshot, publications⟩ ∧
    dispatches number after.chronicle =
      dispatches number session.chronicle ++ Announcement.dispatches ⟨snapshot, publications⟩

namespace Session

variable {session : Session} {number : Nat} {snapshot : Snapshot}

theorem drops_of_precedes (stale : snapshot.Precedes (session.manager number).latest) :
    session.Drops number snapshot := by
  rcases SessionM.run_publish_of_precedes stale with ⟨lines, ran⟩
  refine ⟨_, ran, rfl, fun other => ?_⟩
  simp [dispatches, Session.enter, List.filterMap_map, Function.comp_def, Event.dispatch?]

theorem adopts_of_not_precedes (current : ¬snapshot.Precedes (session.manager number).latest) :
    session.Adopts number snapshot := by
  rcases SessionM.run_publish_of_not_precedes current with
    ⟨publications, announces, ends, acted, _⟩
  refine ⟨publications, _, Prod.ext ends rfl, ?_, announces, ?_⟩
  · rw [acted.manager_eq]
    simp [Manager.after]
  · rw [acted.chronicle_eq]
    simp [dispatches, Session.enter, Session.change, List.filterMap_map, Function.comp_def,
      Event.dispatch?, Announcement.dispatches]

end Session

/-- Over every run a manager publishes in order. A snapshot that precedes the
latest one is dropped, whenever it comes; any other one is adopted. -/
theorem publishesInOrder_run (options : Options) (n : Nat) (steps : List (Step n))
    (number : Nat) :
    (Session.run options n steps).2.PublishesInOrder number ∧
      ∀ (session : Session) (snapshot : Snapshot),
        (snapshot.Precedes (session.manager number).latest → session.Drops number snapshot) ∧
        (¬snapshot.Precedes (session.manager number).latest →
          session.Adopts number snapshot) := by
  constructor
  · rcases (Session.isReachable_run options n steps).history with ⟨history, faithful⟩
    exact {
      current := fun _ isLast => history.managers_of_getLast? isLast
      changes := history.isChain_latest number
      ascends := history.pairwise_latest number
      faithful := faithful number
      versions := (faithful number).pairwise_version (history.pairwise_acceptances number) }
  · intro session snapshot
    exact ⟨Session.drops_of_precedes, Session.adopts_of_not_precedes⟩

/-- A manager that has come to version 1 drops version 0. -/
theorem drops_older_version :
    ((Session.initial {}).openProject { version := 1 }).1.Drops 0 (.unloaded default) :=
  ((publishesInOrder_run {} 0 [] 0).2 _ (.unloaded default)).1 (by decide)

end Proofline
