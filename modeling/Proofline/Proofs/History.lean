import Proofline.Proofs.Announcement

/-!
# Histories

Each change of a manager is entered into the chronicle, and a manager changes
only as its state allows at that moment. A history is a part of a chronicle
that keeps to this. Along a history the latest snapshot of a manager never
gives way to one that precedes it, and what a manager does towards its client
is to announce one snapshot after the other.
-/

namespace Proofline

namespace Manager

/-- Whether the state of a manager admits that something happens to it. -/
def Allows (manager : Manager) : Change → Prop
  | .accepted snapshot => ¬snapshot.Precedes manager.latest
  | .updateBegun version => manager.latest.version ≤ version
  | .updateEnded _ _ => True
  | .gaveUp version _ => version ≤ manager.latest.version
  | .verified version snapshot =>
      snapshot.complete = true ∧ snapshot.compilation.version = version ∧
        version ≤ manager.latest.version
  | .verificationBegun version =>
      version = manager.latest.version ∧ Stage.resolved.rank ≤ manager.latest.stage.rank ∧
        manager.settled < version ∧ manager.verifying ≠ some version
  | .verificationEnded _ => True

/-- A manager gives up its latest snapshot only for one that does not precede
it. -/
theorem not_precedes_after {manager : Manager} {change : Change}
    (allowed : manager.Allows change) :
    ¬(manager.after change).latest.Precedes manager.latest := by
  cases change with
  | accepted snapshot => exact allowed
  | verificationEnded version =>
      simp only [after]
      split <;> exact Snapshot.not_precedes_self _
  | updateBegun _ | updateEnded _ _ | gaveUp _ _ | verified _ _ | verificationBegun _ =>
      exact Snapshot.not_precedes_self _

end Manager

namespace ChronicleEntry

/-- The latest snapshot of a manager when an event happened. -/
def latest (entry : ChronicleEntry) (number : Nat) : Snapshot :=
  (entry.managers.getD number default).latest

/-- A manager of which something is loaded exists. -/
theorem mem_managers_of_stage_ne {entry : ChronicleEntry} {number : Nat}
    (loaded : (entry.latest number).stage ≠ .unloaded) : number ∈ entry.managers := by
  by_cases known : number ∈ entry.managers
  · exact known
  · rw [latest, Std.ExtTreeMap.getD_eq_fallback known] at loaded
    contradiction

end ChronicleEntry

/-- Whether an event leaves every manager as it is. -/
def Event.sparesManagers : Event → Bool
  | .opened _ _ | .changed _ _ => false
  | _ => true

/-- The managers before and after an event. -/
inductive Successor (managers : Table Nat Manager) : Event → Table Nat Manager → Prop
  | spared {event : Event} (spares : event.sparesManagers = true) :
      Successor managers event managers
  | opened {number : Nat} {compilation : Compilation} (new : number ∉ managers) :
      Successor managers (.opened number compilation)
        (managers.insert number (.initial compilation))
  | changed {number : Nat} {change : Change} (known : number ∈ managers)
      (allowed : (managers.getD number default).Allows change) :
      Successor managers (.changed number change)
        (managers.insert number ((managers.getD number default).after change))

/-- Entries that lead from managers to managers, each event from those that
the entry before it left behind. -/
inductive History : Table Nat Manager → List ChronicleEntry → Table Nat Manager → Prop
  | refl (managers : Table Nat Manager) : History managers [] managers
  | step {first second third : Table Nat Manager} {entries : List ChronicleEntry}
      {event : Event} (depth : Nat) (earlier : History first entries second)
      (next : Successor second event third) :
      History first (entries ++ [{ depth, managers := third, event }]) third

namespace Successor

variable {before after : Table Nat Manager} {event : Event}

theorem mem (next : Successor before event after) {number : Nat} (known : number ∈ before) :
    number ∈ after := by
  cases next with
  | spared => exact known
  | opened | changed => exact Std.ExtTreeMap.mem_insert.mpr (Or.inr known)

theorem eq_of_spares (next : Successor before event after)
    (spares : event.sparesManagers = true) : after = before := by
  cases next with
  | spared => rfl
  | opened | changed => contradiction

theorem not_precedes (next : Successor before event after) {number : Nat}
    (known : number ∈ before) :
    ¬(after.getD number default).latest.Precedes (before.getD number default).latest := by
  cases next with
  | spared => exact Snapshot.not_precedes_self _
  | @opened opened _ new =>
      have ne : opened ≠ number := fun same => new (same ▸ known)
      rw [Std.ExtTreeMap.getD_insert, if_neg (by simpa using ne)]
      exact Snapshot.not_precedes_self _
  | @changed changed change _ allowed =>
      rw [Std.ExtTreeMap.getD_insert]
      split
      · rename_i same
        obtain rfl : changed = number := by simpa using same
        exact Manager.not_precedes_after allowed
      · exact Snapshot.not_precedes_self _

end Successor

namespace History

variable {first second third : Table Nat Manager} {entries later : List ChronicleEntry}

theorem append (earlier : History first entries second) (rest : History second later third) :
    History first (entries ++ later) third := by
  induction rest with
  | refl => simpa using earlier
  | step depth _ next ih =>
      rw [← List.append_assoc]
      exact .step depth ih next

theorem eq_of_nil (history : History first [] second) : first = second := by
  generalize none_left : ([] : List ChronicleEntry) = entries at history
  cases history with
  | refl => rfl
  | step => simp at none_left

theorem single (depth : Nat) {event : Event} (next : Successor first event second) :
    History first [{ depth, managers := second, event }] second :=
  .step depth (.refl first) next

/-- Events that change no manager lead back to the same managers. -/
theorem of_spares (managers : Table Nat Manager) (depth : Nat) {events : List Event}
    (spares : ∀ event ∈ events, event.sparesManagers = true) :
    History managers (events.map fun event => { depth, managers, event }) managers := by
  induction events with
  | nil => exact .refl managers
  | cons event rest ih =>
      have head : History managers [{ depth, managers, event }] managers :=
        single depth (.spared (spares event (by simp)))
      exact head.append (ih fun other mem => spares other (by simp [mem]))

/-- A history leads through the managers of each of its entries. -/
theorem split {earlier : List ChronicleEntry} {entry : ChronicleEntry}
    (history : History first entries second) (parts : entries = earlier ++ entry :: later) :
    History first (earlier ++ [entry]) entry.managers ∧
      History entry.managers later second := by
  induction history generalizing later with
  | refl => simp at parts
  | step depth before next ih =>
      rcases List.eq_nil_or_concat later with rfl | ⟨others, last, rfl⟩
      · rcases List.append_inj' parts rfl with ⟨rfl, same⟩
        obtain rfl := List.singleton_inj.mp same
        exact ⟨.step depth before next, .refl _⟩
      · rw [List.concat_eq_append, ← List.cons_append, ← List.append_assoc] at parts
        rcases List.append_inj' parts rfl with ⟨same, lastEq⟩
        obtain rfl := List.singleton_inj.mp lastEq
        have cut := ih same
        rw [List.concat_eq_append]
        exact ⟨cut.1, .step depth cut.2 next⟩

theorem mem (history : History first entries second) {number : Nat} (known : number ∈ first) :
    number ∈ second := by
  induction history with
  | refl => exact known
  | step _ _ next ih => exact next.mem ih

/-- The latest snapshot of a manager never gives way to one that precedes it. -/
theorem not_precedes (history : History first entries second) {number : Nat}
    (known : number ∈ first) :
    ¬(second.getD number default).latest.Precedes (first.getD number default).latest := by
  induction history with
  | refl => exact Snapshot.not_precedes_self _
  | step _ earlier next ih =>
      have once := next.not_precedes (earlier.mem known)
      unfold Snapshot.Precedes at *
      omega

/-- A manager does not fall back behind a version to which it has come. -/
theorem le_version_latest (history : History first entries second) {number : Nat}
    (known : number ∈ first) {version : Int}
    (reached : version ≤ (first.getD number default).latest.version) {entry : ChronicleEntry}
    (mem : entry ∈ entries) : version ≤ (entry.latest number).version := by
  rcases List.append_of_mem mem with ⟨before, after, parts⟩
  have kept := (history.split parts).1.not_precedes known
  unfold Snapshot.Precedes at kept
  unfold ChronicleEntry.latest
  omega

end History

/-- What a manager does towards its client. -/
inductive Dispatch where
  | accepted (snapshot : Snapshot)
  | published (publication : Publication)

/-- What an event is to the client of a manager, if it is anything. -/
def Event.dispatch? (number : Nat) : Event → Option Dispatch
  | .changed manager (.accepted snapshot) =>
      if manager = number then some (.accepted snapshot) else none
  | .published manager publication =>
      if manager = number then some (.published publication) else none
  | _ => none

/-- A snapshot that was accepted, and what was published of it. -/
structure Announcement where
  snapshot : Snapshot
  publications : List Publication

namespace Announcement

/-- An announcement as the client sees it. -/
def dispatches (announcement : Announcement) : List Dispatch :=
  .accepted announcement.snapshot :: announcement.publications.map .published

/-- Whether an announcement says what its snapshot has to say, up to the first
failure of the publisher. -/
def IsFaithful (announcement : Announcement) : Prop :=
  Announces announcement.snapshot.version announcement.snapshot.announcements
    announcement.publications

end Announcement

/-- What a manager does towards its client according to a chronicle. -/
def dispatches (number : Nat) (entries : List ChronicleEntry) : List Dispatch :=
  entries.filterMap fun entry => entry.event.dispatch? number

/-- Whether all that a manager does towards its client is to announce one
snapshot after the other. -/
def AnnouncesFaithfully (number : Nat) (entries : List ChronicleEntry) : Prop :=
  ∃ announcements : List Announcement,
    dispatches number entries = announcements.flatMap Announcement.dispatches ∧
      ∀ announcement ∈ announcements, announcement.IsFaithful

namespace AnnouncesFaithfully

variable {number : Nat} {entries later : List ChronicleEntry}

theorem of_dispatches_eq_nil (silent : dispatches number entries = []) :
    AnnouncesFaithfully number entries :=
  ⟨[], by simpa using silent, by simp⟩

theorem append (first : AnnouncesFaithfully number entries)
    (second : AnnouncesFaithfully number later) :
    AnnouncesFaithfully number (entries ++ later) := by
  rcases first with ⟨earlier, earlierEq, earlierFaithful⟩
  rcases second with ⟨others, othersEq, othersFaithful⟩
  refine ⟨earlier ++ others, ?_, ?_⟩
  · rw [dispatches, List.filterMap_append, List.flatMap_append]
    rw [← earlierEq, ← othersEq]
    rfl
  · intro announcement mem
    rcases List.mem_append.mp mem with mem | mem
    · exact earlierFaithful announcement mem
    · exact othersFaithful announcement mem

end AnnouncesFaithfully

end Proofline
