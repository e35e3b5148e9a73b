import Proofline.Proofs.History
import Proofline.Session.Catalog

/-!
# How sessions evolve

A session evolves when its chronicle grows by a history of its managers. This
is all that anything running in a session does to it, so facts that growing
histories preserve hold from the moment they come about.
-/

namespace Proofline

namespace Session

/-- Whether managers are numbered without gaps, and open projects have
managers. -/
structure WellNumbered (session : Session) : Prop where
  mem_managers : ∀ number, number ∈ session.managers ↔ number < session.managers.size
  mem_of_catalog : ∀ {project : String} {number : Nat}, session.catalog[project]? = some number →
    number ∈ session.managers

/-- `after` continues the chronicle of `before` by a history of its managers
along which every manager announces its snapshots. -/
structure Evolves (before after : Session) : Prop where
  wellNumbered : before.WellNumbered → after.WellNumbered
  history : ∃ entries, after.chronicle = before.chronicle ++ entries ∧
    History before.managers entries after.managers ∧
    ∀ number, AnnouncesFaithfully number entries

namespace Evolves

variable {first second third before after session : Session}

theorem trans (earlier : first.Evolves second) (later : second.Evolves third) :
    first.Evolves third where
  wellNumbered wellNumbered := later.wellNumbered (earlier.wellNumbered wellNumbered)
  history := by
    rcases earlier.history with ⟨entries, chronicleEq, history, faithful⟩
    rcases later.history with ⟨others, othersEq, othersHistory, othersFaithful⟩
    refine ⟨entries ++ others, ?_, history.append othersHistory, fun number => ?_⟩
    · rw [othersEq, chronicleEq, List.append_assoc]
    · exact (faithful number).append (othersFaithful number)

/-- Nothing but the surroundings of the managers changes. -/
theorem of_surroundings (managers : after.managers = before.managers)
    (chronicle : after.chronicle = before.chronicle)
    (catalog : ∀ {project : String} {number : Nat}, after.catalog[project]? = some number →
      before.catalog[project]? = some number) : before.Evolves after where
  wellNumbered wellNumbered := by
    refine ⟨?_, fun opened => ?_⟩
    · rw [managers]
      exact wellNumbered.mem_managers
    · rw [managers]
      exact wellNumbered.mem_of_catalog (catalog opened)
  history := by
    refine ⟨[], by simpa using chronicle, ?_, fun number => .of_dispatches_eq_nil rfl⟩
    rw [managers]
    exact .refl before.managers

theorem refl (session : Session) : session.Evolves session :=
  of_surroundings rfl rfl id

theorem of_publisherActed (acted : PublisherActed before after) : before.Evolves after := by
  apply of_surroundings <;> rw [acted.same]
  exact id

theorem enter {events : List Event} (spares : ∀ event ∈ events, event.sparesManagers = true)
    (silent : ∀ event ∈ events, ∀ number, event.dispatch? number = none) :
    session.Evolves (session.enter events) where
  wellNumbered wellNumbered :=
    { mem_managers := wellNumbered.mem_managers, mem_of_catalog := wellNumbered.mem_of_catalog }
  history := by
    refine ⟨_, rfl, .of_spares session.managers session.depth spares, fun number => ?_⟩
    apply AnnouncesFaithfully.of_dispatches_eq_nil
    simpa [dispatches] using fun event mem => silent event mem number

/-- Replacing a manager that exists keeps the managers numbered without
gaps. -/
theorem wellNumbered_insert (wellNumbered : session.WellNumbered) {number : Nat}
    (known : number ∈ session.managers) (manager : Manager) (entries : List ChronicleEntry) :
    { session with
      managers := session.managers.insert number manager
      chronicle := entries }.WellNumbered where
  mem_managers other := by
    simp only [Std.ExtTreeMap.size_insert, Std.ExtTreeMap.contains_iff_mem, if_pos known,
      Std.ExtTreeMap.mem_insert, ← wellNumbered.mem_managers other]
    constructor
    · rintro (same | mem)
      · obtain rfl : number = other := by simpa using same
        exact known
      · exact mem
    · exact Or.inr
  mem_of_catalog opened :=
    Std.ExtTreeMap.mem_insert.mpr (Or.inr (wellNumbered.mem_of_catalog opened))

theorem change {number : Nat} {change : Change} (known : number ∈ session.managers)
    (allowed : (session.manager number).Allows change)
    (silent : ∀ other, (Event.changed number change).dispatch? other = none) :
    session.Evolves (session.change number change) where
  wellNumbered wellNumbered := wellNumbered_insert wellNumbered known _ _
  history := by
    refine ⟨_, rfl, ?_, fun other => ?_⟩
    · exact .single session.depth (.changed known allowed)
    · apply AnnouncesFaithfully.of_dispatches_eq_nil
      simpa [dispatches] using silent other

/-- A snapshot becomes the latest one and is announced. -/
theorem accept {number : Nat} {snapshot : Snapshot} {publications : List Publication}
    (known : number ∈ session.managers)
    (current : ¬snapshot.Precedes (session.manager number).latest)
    (announces : Announces snapshot.version snapshot.announcements publications) :
    session.Evolves
      ((session.change number (.accepted snapshot)).enter
        (publications.map (.published number))) where
  wellNumbered wellNumbered := wellNumbered_insert wellNumbered known _ _
  history := by
    refine ⟨_, List.append_assoc _ _ _, ?_, fun other => ?_⟩
    · have accepted : History session.managers _
          (session.change number (.accepted snapshot)).managers :=
        .single session.depth (.changed known current)
      refine accepted.append (.of_spares _ session.depth ?_)
      simp [Event.sparesManagers]
    · by_cases same : number = other
      · refine ⟨[⟨snapshot, publications⟩], ?_, by simpa [Announcement.IsFaithful]⟩
        simp [dispatches, Event.dispatch?, same, Announcement.dispatches, List.filterMap_map,
          Function.comp_def]
      · apply AnnouncesFaithfully.of_dispatches_eq_nil
        simp [dispatches, Event.dispatch?, same]

theorem openProject (wellNumbered : session.WellNumbered) (compilation : Compilation) :
    session.Evolves (session.openProject compilation).1 := by
  unfold Session.openProject
  split
  · exact refl session
  · have new : session.managers.size ∉ session.managers := by
      simp [wellNumbered.mem_managers]
    constructor
    · intro _
      refine ⟨fun number => ?_, fun {project number} opened => ?_⟩
      · simp only [Session.enter, Std.ExtTreeMap.size_insert,
          Std.ExtTreeMap.contains_iff_mem, if_neg new, Std.ExtTreeMap.mem_insert,
          wellNumbered.mem_managers number,
          Std.LawfulEqOrd.compare_eq_iff_eq]
        omega
      · simp only [Session.enter, Std.ExtTreeMap.getElem?_insert] at opened ⊢
        rw [Std.ExtTreeMap.mem_insert]
        split at opened
        · exact Or.inl (by simpa using opened)
        · exact Or.inr (wellNumbered.mem_of_catalog opened)
    · refine ⟨_, rfl, ?_, fun number => .of_dispatches_eq_nil rfl⟩
      exact .single session.depth (.opened new)

theorem mem_managers (evolves : before.Evolves after) {number : Nat}
    (known : number ∈ before.managers) : number ∈ after.managers := by
  rcases evolves.history with ⟨_, _, history, _⟩
  exact history.mem known

/-- The latest snapshot of a manager never gives way to one that precedes it. -/
theorem not_precedes (evolves : before.Evolves after) {number : Nat}
    (known : number ∈ before.managers) :
    ¬(after.manager number).latest.Precedes (before.manager number).latest := by
  rcases evolves.history with ⟨_, _, history, _⟩
  exact history.not_precedes known

theorem version_le (evolves : before.Evolves after) {number : Nat}
    (known : number ∈ before.managers) :
    (before.manager number).latest.version ≤ (after.manager number).latest.version := by
  have kept := evolves.not_precedes known
  unfold Snapshot.Precedes at kept
  omega

/-- What happened stays known. -/
theorem chronicle_grows (evolves : before.Evolves after) :
    before.chronicle <+: after.chronicle := by
  rcases evolves.history with ⟨entries, chronicleEq, _, _⟩
  exact ⟨entries, chronicleEq.symm⟩

end Evolves

end Session

end Proofline
