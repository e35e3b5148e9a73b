import Proofline.Proofs.Descent
import Proofline.Proofs.PendingUnits

/-!
# The provenance of snapshots

A resolved version that a manager accepts was loaded by one update: the trees it took over, and
that resolution left alone, are those of the snapshot that was the latest one when the update
began. A verified snapshot has results for an initial segment of its distinct units, recorded in
order, for whoever verifies the version goes on where the last one has stopped. However steps
nest, this is so along the chronicle of every run.
-/

namespace Proofline

open Declaration (distinct)

namespace Verified

/-- Whether results were recorded for the first of the distinct units of a version, in order, and
for no others. -/
def IsInOrder (verified : Verified) : Prop :=
  ∃ recorded : List (Declaration × Outcome),
    verified = (start verified.resolved).record recorded ∧
      recorded.map Prod.fst <+: distinct verified.resolved.units

theorem isInOrder_start (resolved : Resolved) : (start resolved).IsInOrder :=
  ⟨[], rfl, List.nil_prefix⟩

theorem pending_append_of_mem {verified : Verified} {former : List Declaration}
    (done : ∀ unit ∈ former, unit.key ∈ verified.results) (rest : List Declaration) :
    verified.pending (former ++ rest) = verified.pending rest := by
  induction former with
  | nil => rfl
  | cons unit former ih =>
      rw [List.cons_append, pending_cons_of_mem (done unit (by simp))]
      exact ih fun other mem => done other (by simp [mem])

/-- The order is kept when a result is recorded for the first unit without one. -/
theorem IsInOrder.withResult {verified : Verified} (inOrder : verified.IsInOrder)
    {former rest : List Declaration} {unit : Declaration}
    (parts : verified.resolved.units = former ++ unit :: rest)
    (done : ∀ unit ∈ former, unit.key ∈ verified.results) (pending : unit.key ∉ verified.results)
    (outcome : Outcome) : (verified.withResult unit outcome).IsInOrder := by
  rcases inOrder with ⟨recorded, isRecorded, first⟩
  have next := pending_append_of_mem done (unit :: rest)
  rw [← parts, pending_cons_of_not_mem pending outcome] at next
  rw [← pending_start] at first
  have whole := pending_record first
  rw [← isRecorded, next, pending_start] at whole
  refine ⟨recorded ++ [(unit, outcome)], ?_, ?_⟩
  · rw [record_append]
    exact congrArg (Verified.withResult · unit outcome) isRecorded
  · rw [List.map_append]
    exact ⟨_, by rw [List.append_assoc]; exact whole⟩

end Verified

/-- Whether the trees of a resolved version come from those of the snapshot that was the latest
one when its update began: the ones that still describe their documents are carried over, the
others begun anew, and these have pending nodes for the units. -/
structure Resolved.LoadedFrom (origin : Snapshot) (resolved : Resolved) : Prop where
  parsedTrees : resolved.parsed.trees =
    Parsed.initialTrees resolved.compilation (origin.trees.migrate resolved.compilation)
  trees : resolved.trees =
    Resolved.pendingTrees resolved.parsed (origin.trees.migrate resolved.compilation)
      resolved.units

/-- The provenance of a snapshot that a manager accepts. -/
def Snapshot.HasProvenance (number : Nat) (past : List ChronicleEntry) : Snapshot → Prop
  | .unloaded _ | .parsed _ => True
  | .resolved snapshot => ∃ origin,
      UpdateBegan number snapshot.compilation.version origin past ∧ snapshot.LoadedFrom origin
  | .verified snapshot =>
      (∀ partly, HasSeen number (.verified partly) past → partly.IsInOrder) → snapshot.IsInOrder

/-- What else is seen does not touch the provenance of a verified snapshot. -/
theorem Snapshot.HasProvenance.append {number : Nat} {past : List ChronicleEntry}
    {verified : Verified} (provenance : (Snapshot.verified verified).HasProvenance number past)
    (later : List ChronicleEntry) :
    (Snapshot.verified verified).HasProvenance number (past ++ later) :=
  fun inOrder => provenance fun partly seen => inOrder partly (seen.append later)

/-- Whether each of some entries tells of a snapshot that it has its provenance in the entries
before. -/
def Traced : List ChronicleEntry → List ChronicleEntry → Prop :=
  Successively fun past entry => ∀ number snapshot,
    entry.event.accepted? number = some snapshot → snapshot.HasProvenance number past

namespace Event

variable {event : Event}

/-- What is neither accepted nor published is not accepted. -/
theorem accepted?_of_dispatch? {number : Nat} (quiet : event.dispatch? number = none) :
    event.accepted? number = none := by
  unfold accepted?
  split
  · unfold dispatch? at quiet
    split
    · rename_i same
      simp [same] at quiet
    · rfl
  · rfl

theorem accepted?_of_isIncidental (incidental : event.isIncidental = true) (number : Nat) :
    event.accepted? number = none := by
  unfold accepted?
  split
  · cases incidental
  · rfl

end Event

namespace Session

/-- `after` continues the chronicle of `before` as `Evolves` has it, journals stay open, and what
is accepted in between has its provenance. -/
structure Traces (before after : Session) : Prop where
  evolves : before.Evolves after
  hasJournal : ∀ {number project}, before.HasJournal number project →
    after.HasJournal number project
  traced : ∃ entries, after.chronicle = before.chronicle ++ entries ∧
    Traced before.chronicle entries

namespace Traces

variable {first second third before after session : Session}

theorem trans (earlier : first.Traces second) (later : second.Traces third) :
    first.Traces third where
  evolves := earlier.evolves.trans later.evolves
  hasJournal opened := later.hasJournal (earlier.hasJournal opened)
  traced := by
    rcases earlier.traced with ⟨former, formerEq, formerTraced⟩
    rcases later.traced with ⟨latter, latterEq, latterTraced⟩
    rw [formerEq] at latterEq latterTraced
    exact ⟨former ++ latter, by rw [latterEq, List.append_assoc],
      formerTraced.append latterTraced⟩

/-- Nothing is accepted. -/
theorem of_silent (evolves : before.Evolves after)
    (hasJournal : ∀ {number project}, before.HasJournal number project →
      after.HasJournal number project)
    {entries : List ChronicleEntry} (chronicleEq : after.chronicle = before.chronicle ++ entries)
    (silent : ∀ entry ∈ entries, ∀ number, entry.event.accepted? number = none) :
    before.Traces after where
  evolves := evolves
  hasJournal := hasJournal
  traced := by
    refine ⟨entries, chronicleEq, .of_forall fun entry mem _ number snapshot accepted => ?_⟩
    rw [silent entry mem number] at accepted
    cases accepted

/-- Something happens that the session records, and nothing is accepted. -/
theorem of_behaves {back : Bool} (behaves : before.Behaves none back after)
    {entries : List ChronicleEntry} (chronicleEq : after.chronicle = before.chronicle ++ entries)
    (silent : ∀ entry ∈ entries, ∀ number, entry.event.accepted? number = none) :
    before.Traces after :=
  .of_silent behaves.evolves behaves.records.hasJournal chronicleEq silent

theorem enter {events : List Event} (spares : ∀ event ∈ events, event.sparesManagers = true)
    (quiet : ∀ event ∈ events, ∀ number, event.dispatch? number = none) :
    session.Traces (session.enter events) := by
  refine .of_silent (.enter spares quiet) id rfl fun entry mem number => ?_
  rcases List.mem_map.mp mem with ⟨event, isEvent, rfl⟩
  exact Event.accepted?_of_dispatch? (quiet event isEvent number)

/-- Something happens to a manager, but it accepts no snapshot. -/
theorem change {number : Nat} {change : Change} (known : number ∈ session.managers)
    (allowed : (session.manager number).Allows change)
    (quiet : ∀ other, (Event.changed number change).dispatch? other = none) :
    session.Traces (session.change number change) := by
  refine .of_silent (.change known allowed quiet) id rfl fun entry mem other => ?_
  obtain rfl := List.mem_singleton.mp mem
  exact Event.accepted?_of_dispatch? (quiet other)

/-- A snapshot becomes the latest one and is announced. -/
theorem accept {number : Nat} {snapshot : Snapshot} {publications : List Publication}
    (known : number ∈ session.managers)
    (current : ¬snapshot.Precedes (session.manager number).latest)
    (announces : Announces snapshot.version snapshot.announcements publications)
    (provenance : snapshot.HasProvenance number session.chronicle) :
    session.Traces
      ((session.change number (.accepted snapshot)).enter
        (publications.map (.published number))) where
  evolves := .accept known current announces
  hasJournal := id
  traced := by
    refine ⟨_, List.append_assoc _ _ _, Successively.append (.single ?_) (.of_forall ?_)⟩
    · intro other accepted isAccepted
      cases Event.eq_of_accepted? isAccepted
      exact provenance
    · intro entry mem _ other accepted isAccepted
      obtain ⟨publication, _, rfl⟩ : ∃ publication ∈ publications, _ = entry := by
        simpa using mem
      cases isAccepted

end Traces

end Session

theorem isDiscipline_traces : IsDiscipline fun _ => Session.Traces where
  evolves traces := traces.evolves
  hasJournal traces := traces.hasJournal
  trans := Session.Traces.trans
  of_surroundings {_ before after} managers chronicle journals options catalog := by
    have behaves : before.Behaves none true after :=
      .of_surroundings managers chronicle journals options catalog
    have nothing : after.chronicle = before.chronicle ++ [] := by simpa using chronicle
    exact .of_behaves behaves nothing (by simp)
  of_incidental {_ session events} incidental := by
    have behaves : session.Behaves none true (session.enter events) := .enter incidental
    refine .of_behaves behaves rfl fun entry mem number => ?_
    rcases List.mem_map.mp mem with ⟨event, isEvent, rfl⟩
    exact Event.accepted?_of_isIncidental (incidental event isEvent) number
  of_openJournal session project := by
    have behaves : session.Behaves none true (session.openJournal project) :=
      .openJournal session project
    have nothing : (session.openJournal project).chronicle = session.chronicle ++ [] := by
      simp [Session.openJournal]
    exact .of_behaves behaves nothing (by simp)
  of_report session number given := by
    have behaves : session.Behaves none true (session.report number given) :=
      .report session number given
    unfold Session.report at behaves ⊢
    split
    · rename_i opened
      rw [if_pos opened] at behaves
      exact .of_behaves behaves rfl (by simp [Event.accepted?])
    · have nothing : session.chronicle = session.chronicle ++ [] := by simp
      rename_i unopened
      rw [if_neg unopened] at behaves
      exact .of_behaves behaves nothing (by simp)
  of_resolving {_ session project number} clean := by
    have behaves : session.Behaves none true (session.enter [.resolving project number]) :=
      .enter_resolving clean
    exact .of_behaves behaves rfl (by simp [Event.accepted?])

namespace Session.Traces

variable {session : Session}

theorem openProject (wellNumbered : session.WellNumbered) (compilation : Compilation) :
    session.Traces (session.openProject compilation).1 := by
  have behaves : session.Behaves none true (session.openProject compilation).1 :=
    .openProject wellNumbered compilation
  unfold Session.openProject at behaves ⊢
  split
  · exact isDiscipline_traces.refl true session
  · rename_i unopened
    rw [unopened] at behaves
    exact .of_behaves behaves rfl (by simp [Event.accepted?])

theorem of_publisherActed {before after : Session} (acted : PublisherActed before after) :
    before.Traces after := by
  have behaves : before.Behaves none true after := .of_publisherActed acted
  have nothing : after.chronicle = before.chronicle ++ [] := by simp [acted.chronicle_eq]
  exact .of_behaves behaves nothing (by simp)

end Session.Traces

namespace SessionM

open Session (Knows Reached Traces)

variable {number : Nat} {services : Services}

/-- A snapshot that has its provenance may be published. -/
theorem traces_publish {snapshot : Snapshot} {pre : Session → Prop}
    (known : ∀ session, pre session → session.Knows number)
    (provenance : ∀ session, pre session → snapshot.HasProvenance number session.chronicle) :
    Meets (fun _ => Traces) pre (publish number snapshot) fun _ _ => True := by
  intro session _ holds
  refine ⟨?_, fun _ _ => trivial⟩
  by_cases stale : snapshot.Precedes (session.manager number).latest
  · rcases run_publish_of_precedes stale with ⟨lines, ran⟩
    rw [ran]
    exact Traces.enter (by simp [Event.sparesManagers]) (by simp [Event.dispatch?])
  · rcases run_publish_of_not_precedes stale with ⟨publications, announces, _, acted, _⟩
    exact (Traces.accept (known session holds) stale announces (provenance session holds)).trans
      (.of_publisherActed acted)

end SessionM

end Proofline
