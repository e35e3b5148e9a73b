import Proofline.Proofs.Attempts
import Proofline.Proofs.Attendance
import Proofline.Proofs.ProjectNames
import Proofline.Proofs.Steps
import Proofline.Proofs.Warrants

/-!
# Steadiness

While a manager waits for a service, the service may run further steps. A version
that is parsed already is not parsed again, a second verification of the version is
turned away at once, and so is an update to a version that is not newer. Whatever
the service does, the manager therefore is as it was when the service returns, unless
a newer version has come first; and no verification and no update that the service began
is still in progress when it comes back. All the while a version that is verified in full
is settled or being verified.
-/

namespace Proofline

namespace Manager

/-- Whether a manager is verifying its latest version and has published a first
snapshot of it. -/
def IsVerifyingLatest (manager : Manager) : Prop :=
  manager.latest.stage = .verified ∧ manager.verifying = some manager.latest.version

/-- Whether a manager does not verify a version, because it is settled or being
verified. -/
def Refuses (manager : Manager) (version : Int) : Prop :=
  version ≤ manager.settled ∨ manager.verifying = some version

instance (manager : Manager) (version : Int) : Decidable (manager.Refuses version) :=
  inferInstanceAs (Decidable (_ ∨ _))

theorem not_refuses_iff {manager : Manager} {version : Int} :
    ¬manager.Refuses version ↔ manager.settled < version ∧ manager.verifying ≠ some version := by
  rw [Refuses, not_or, Int.not_le]

/-- Whether nothing but the update or the verification that brought a manager where it
is takes its latest version further. -/
def IsHeld (manager : Manager) : Prop :=
  manager.latest.stage = .parsed ∨ manager.IsVerifyingLatest

theorem IsHeld.stage_ne {manager : Manager} (held : manager.IsHeld) :
    manager.latest.stage ≠ .unloaded := by
  rcases held with parsed | ⟨verified, _⟩
  · simp [parsed]
  · simp [verified]

/-- Whether the latest version of a manager is settled or being verified if its snapshot is
complete. -/
def Concludes (manager : Manager) : Prop :=
  ∀ verified, manager.latest = .verified verified → verified.complete = true →
    manager.Refuses verified.compilation.version

theorem concludes_of_stage_ne {manager : Manager} (unverified : manager.latest.stage ≠ .verified) :
    manager.Concludes := by
  intro _ latest
  rw [latest] at unverified
  exact absurd rfl unverified

/-- Whether something that happens to a manager leaves it attended, and its complete version
settled or being verified. -/
structure Upholds (manager : Manager) (updates : List Int) (change : Change) : Prop where
  attended : manager.IsAttended updates → (manager.after change).IsAttended updates
  concludes : manager.Concludes → (manager.after change).Concludes

section Upholds

variable {manager : Manager} {updates : List Int}

theorem upholds_accepted {snapshot : Snapshot}
    (attending : snapshot.stage = .parsed → snapshot.version ∈ updates)
    (verifying : ∀ verified, snapshot = .verified verified →
      manager.verifying = some verified.compilation.version) :
    manager.Upholds updates (.accepted snapshot) where
  attended attended := attended.accepted attending
  concludes _ verified latest _ := Or.inr (verifying verified latest)

theorem upholds_gaveUp (version : Int) (status : UpdateStatus) :
    manager.Upholds updates (.gaveUp version status) where
  attended attended := attended.settle version none
  concludes concludes verified latest complete :=
    (concludes verified latest complete).imp_left (Int.le_trans · (Int.le_max_left _ _))

theorem upholds_verificationBegun {version : Int} (isLatest : version = manager.latest.version) :
    manager.Upholds updates (.verificationBegun version) where
  attended attended := attended.of_le rfl (Int.le_refl _) rfl
  concludes _ _ latest _ :=
    Or.inr (congrArg some (isLatest.trans (congrArg Snapshot.version latest)))

/-- When the verification of a version ends, other versions are verified as before. -/
theorem refuses_of_verificationEnded {version other : Int} (ne : other ≠ version)
    (refuses : manager.Refuses other) :
    (manager.after (.verificationEnded version)).Refuses other := by
  rw [after]
  split
  · rename_i marked
    refine refuses.imp_right fun verifying => absurd ?_ ne
    exact Option.some.inj (verifying.symm.trans marked)
  · exact refuses

theorem latest_verificationEnded (manager : Manager) (version : Int) :
    (manager.after (.verificationEnded version)).latest = manager.latest := by
  rw [after]
  split <;> rfl

/-- The verification of a version ends that leaves no complete snapshot of it. -/
theorem upholds_verificationEnded {version : Int}
    (incomplete : ∀ verified, manager.latest = .verified verified →
      verified.compilation.version = version → verified.complete = false) :
    manager.Upholds updates (.verificationEnded version) where
  attended attended := attended.verificationEnded version
  concludes concludes verified latest complete := by
    rw [latest_verificationEnded] at latest
    refine refuses_of_verificationEnded (fun same => ?_) (concludes verified latest complete)
    rw [incomplete verified latest same] at complete
    cases complete

/-- The verification of a version ends, and the version is settled. -/
theorem concludes_verified {version : Int} (snapshot : Verified) (concludes : manager.Concludes) :
    ((manager.after (.verificationEnded version)).after
      (.verified version snapshot)).Concludes := by
  intro verified latest complete
  change (manager.after (.verificationEnded version)).latest = _ at latest
  rw [latest_verificationEnded] at latest
  by_cases same : verified.compilation.version = version
  · exact Or.inl (same ▸ Int.le_max_right _ _)
  · exact (refuses_of_verificationEnded same (concludes verified latest complete)).imp_left
      (Int.le_trans · (Int.le_max_left _ _))

end Upholds

end Manager

namespace Session

theorem knows_of_stage_ne {session : Session} {number : Nat}
    (loaded : (session.manager number).latest.stage ≠ .unloaded) : session.Knows number := by
  by_cases known : number ∈ session.managers
  · exact known
  · rw [manager, Std.ExtTreeMap.getD_eq_fallback known] at loaded
    contradiction

theorem knows_of_isHeld {session : Session} {number : Nat}
    (held : (session.manager number).IsHeld) : session.Knows number :=
  knows_of_stage_ne held.stage_ne

/-- A manager whose latest version is held stays as it is, unless it comes to a newer
one. -/
structure Steady (number : Nat) (before after : Session) : Prop where
  evolves : before.Evolves after
  steady : (before.manager number).IsHeld →
    (after.manager number).latest.version = (before.manager number).latest.version →
    after.manager number = before.manager number

namespace Steady

variable {number : Nat} {first second third : Session}

theorem trans (earlier : first.Steady number second) (later : second.Steady number third) :
    first.Steady number third where
  evolves := earlier.evolves.trans later.evolves
  steady held same := by
    have known := knows_of_isHeld held
    have once := earlier.evolves.version_le known
    have again := later.evolves.version_le (earlier.evolves.mem_managers known)
    have middle : (second.manager number).latest.version =
        (first.manager number).latest.version := by omega
    have unchanged := earlier.steady held middle
    rw [← unchanged] at held
    rw [later.steady held (same.trans middle.symm), unchanged]

end Steady

/-- What an action that comes back or not does to a session: the chronicle unfolds and
records what is warranted, managers are steady except the one on whose behalf the action
is carried out, and no verification that began meanwhile is in progress when the action
comes back. -/
structure LeadsTo (acting : Option Nat) (back : Bool) (before after : Session) : Prop where
  unfolds : before.Unfolds after
  records : before.Records after
  steady : ∀ number, acting ≠ some number → before.Steady number after
  unwinds : back = true → ∀ {number : Nat} {version : Int},
    after.HasAttempted number version .inProgress →
      before.HasAttempted number version .inProgress

namespace LeadsTo

variable {acting : Option Nat} {back : Bool} {first second third before after : Session}

theorem trans (earlier : first.LeadsTo acting true second)
    (later : second.LeadsTo acting back third) : first.LeadsTo acting back third where
  unfolds := earlier.unfolds.trans later.unfolds
  records := earlier.records.trans later.records
  steady number other := (earlier.steady number other).trans (later.steady number other)
  unwinds isBack _ _ inProgress := earlier.unwinds rfl (later.unwinds isBack inProgress)

/-- Nothing changes but the manager on whose behalf it happens, and it begins no
verification. -/
theorem of_unfolds (unfolds : before.Unfolds after) (records : before.Records after)
    (same : ∀ number, acting ≠ some number → before.Knows number →
      after.manager number = before.manager number)
    {entries : List ChronicleEntry} (chronicleEq : after.chronicle = before.chronicle ++ entries)
    (continues : ∀ entry ∈ entries, ∀ number, entry.event.beginsVerification number = false) :
    before.LeadsTo acting back after where
  unfolds := unfolds
  records := records
  steady number other :=
    ⟨unfolds.evolves, fun held _ => same number other (knows_of_isHeld held)⟩
  unwinds _ number version inProgress := by
    rw [HasAttempted, chronicleEq] at inProgress
    exact inProgress_of_append (fun entry mem => continues entry mem number) inProgress rfl

theorem change {number : Nat} {change : Change} {session : Session}
    (known : session.Knows number) (allowed : (session.manager number).Allows change)
    (silent : ∀ other, (Event.changed number change).dispatch? other = none)
    (warrant : session.KeepsJournals →
      (Event.changed number change).HasWarrant session.options session.chronicle)
    (continues : ∀ other, (Event.changed number change).beginsVerification other = false) :
    session.LeadsTo (some number) back (session.change number change) := by
  refine .of_unfolds (.change known allowed silent) (.change warrant) ?_ rfl ?_
  · intro other ne _
    exact session.manager_change_of_ne (fun same => ne (congrArg some same)) change
  · intro entry mem
    obtain rfl := List.mem_singleton.mp mem
    exact continues

end LeadsTo

/-- What an action does to a session that ends all updates it begins, unless it does not come
back: managers stay attended, and complete versions settled or being verified. Open projects
keep their names. -/
structure Behaves (acting : Option Nat) (back : Bool) (before after : Session) : Prop extends
    LeadsTo acting back before after where
  attends : ∀ number, before.Attends number back after
  concludes : ∀ number, (before.manager number).Concludes → (after.manager number).Concludes
  names : before.NamesProjects → after.NamesProjects

namespace Behaves

variable {acting : Option Nat} {back : Bool} {first second third before after : Session}

theorem evolves (behaves : before.Behaves acting back after) : before.Evolves after :=
  behaves.unfolds.evolves

theorem trans (earlier : first.Behaves acting true second)
    (later : second.Behaves acting back third) : first.Behaves acting back third where
  toLeadsTo := earlier.toLeadsTo.trans later.toLeadsTo
  attends number := (earlier.attends number).trans (later.attends number)
  concludes number concludes := later.concludes number (earlier.concludes number concludes)
  names names := later.names (earlier.names names)

/-- Whatever happens, no manager changes. -/
theorem of_spared (unfolds : before.Unfolds after) (records : before.Records after)
    (managers : after.managers = before.managers)
    (catalog : ∀ {project : String} {number : Nat}, after.catalog[project]? = some number →
      before.catalog[project]? = some number) {entries : List ChronicleEntry}
    (chronicleEq : after.chronicle = before.chronicle ++ entries)
    (spares : ∀ entry ∈ entries, entry.event.sparesManagers = true) :
    before.Behaves acting back after := by
  have same (number : Nat) : after.manager number = before.manager number := by
    rw [manager, managers]
    rfl
  refine
    { toLeadsTo := .of_unfolds unfolds records (fun number _ _ => same number) chronicleEq ?_
      attends := fun number => .of_spares unfolds.evolves chronicleEq spares
      concludes := fun number concludes => (same number).symm ▸ concludes
      names := fun names => names.of_managers_eq managers catalog }
  intro entry mem number
  have spared := spares entry mem
  cases isEvent : entry.event with
  | changed => simp [isEvent, Event.sparesManagers] at spared
  | _ => rfl

theorem of_surroundings (managers : after.managers = before.managers)
    (chronicle : after.chronicle = before.chronicle) (journals : after.journals = before.journals)
    (options : after.options = before.options)
    (catalog : ∀ {project : String} {number : Nat}, after.catalog[project]? = some number →
      before.catalog[project]? = some number) : before.Behaves acting back after := by
  have nothing : after.chronicle = before.chronicle ++ [] := by simpa using chronicle
  exact .of_spared (.of_surroundings managers chronicle catalog)
    (.of_surroundings options journals chronicle) managers catalog nothing (by simp)

theorem of_publisherActed (acted : PublisherActed before after) :
    before.Behaves acting back after := by
  apply of_surroundings <;> rw [acted.same]
  exact id

/-- Events are recorded that concern no manager and no journal. -/
theorem enter {session : Session} {events : List Event}
    (incidental : ∀ event ∈ events, event.isIncidental = true) :
    session.Behaves acting back (session.enter events) := by
  have plain (event : Event) (mem : event ∈ events) : event.sparesManagers = true ∧
      (∀ number, event.dispatch? number = none) ∧
      (∀ past managers, event.HasGrounds past managers) ∧
      (∀ number, event.reportTo? number = none) ∧
      ∀ options past, event.HasWarrant options past := by
    cases event with
    | verifying | opened | changed | published | reported | resolving =>
        exact absurd (incidental _ mem) (by simp [Event.isIncidental])
    | _ => exact ⟨rfl, fun _ => rfl, fun _ _ => trivial, fun _ => rfl, fun _ _ => trivial⟩
  have unfolds : session.Unfolds (session.enter events) :=
    .enter (fun event mem => (plain event mem).1) (fun event mem => (plain event mem).2.1)
      fun event mem => (plain event mem).2.2.1
  have records : session.Records (session.enter events) :=
    .enter (fun event mem => (plain event mem).2.2.2.1) fun event mem => (plain event mem).2.2.2.2
  refine .of_spared unfolds records rfl id rfl fun entry mem => ?_
  rcases List.mem_map.mp mem with ⟨event, isEvent, rfl⟩
  exact (plain event isEvent).1

/-- The verifier is called. -/
theorem enter_verifying {number : Nat} {version : Int} {unit : Declaration} {session : Session}
    (grounds : (Event.verifying number version unit).HasGrounds session.chronicle
      session.managers) :
    session.Behaves acting back (session.enter [.verifying number version unit]) := by
  have records : session.Records (session.enter [.verifying number version unit]) :=
    .enter (by simp [Event.reportTo?]) (by simp [Event.HasWarrant])
  exact .of_spared (.enter_verifying grounds) records rfl id rfl (by simp [Event.sparesManagers])

/-- The resolver is called while a journal has no errors. -/
theorem enter_resolving {session : Session} {project : String} {number : Nat}
    (clean : (session.journal number).tally.hasErrors = false) :
    session.Behaves acting back (session.enter [.resolving project number]) := by
  have unfolds : session.Unfolds (session.enter [.resolving project number]) :=
    .enter (by simp [Event.sparesManagers]) (by simp [Event.dispatch?])
      (by simp [Event.HasGrounds])
  exact .of_spared unfolds (.enter_resolving clean) rfl id rfl (by simp [Event.sparesManagers])

theorem openJournal (session : Session) (project : String) :
    session.Behaves acting back (session.openJournal project) := by
  have nothing : (session.openJournal project).chronicle = session.chronicle ++ [] := by
    simp [Session.openJournal]
  exact .of_spared (.of_surroundings rfl rfl id) (.openJournal session project) rfl id nothing
    (by simp)

theorem report (session : Session) (number : Nat) (given : Report) :
    session.Behaves acting back (session.report number given) := by
  have records := Records.report session number given
  unfold Session.report at records ⊢
  split
  · rename_i opened
    rw [if_pos opened] at records
    refine .of_spared ?_ records rfl id rfl (by simp [Event.sparesManagers])
    let modified : Session :=
      { session with
        journals := session.journals.modify number fun journal => journal.report given }
    have same : session.Unfolds modified := .of_surroundings rfl rfl id
    have entered : modified.Unfolds (modified.enter [.reported number given]) :=
      .enter (by simp [Event.sparesManagers]) (by simp [Event.dispatch?])
        (by simp [Event.HasGrounds])
    exact same.trans entered
  · exact .of_surroundings rfl rfl rfl rfl id

/-- Where one manager is changed, the others conclude as before. -/
theorem concludes_change {session : Session} {number : Nat} {change : Change}
    (concludes : (session.manager number).Concludes →
      ((session.manager number).after change).Concludes) (other : Nat) :
    (session.manager other).Concludes →
      ((session.change number change).manager other).Concludes := by
  by_cases same : number = other
  · subst same
    rw [manager_change_self]
    exact concludes
  · rw [manager_change_of_ne _ same]
    exact id

theorem change {number : Nat} {change : Change} {session : Session}
    (known : session.Knows number) (allowed : (session.manager number).Allows change)
    (silent : ∀ other, (Event.changed number change).dispatch? other = none)
    (warrant : session.KeepsJournals →
      (Event.changed number change).HasWarrant session.options session.chronicle)
    (continues : ∀ other, (Event.changed number change).beginsVerification other = false)
    (goesOn : ∀ other updates, (Event.changed number change).updatesAfter other updates = updates)
    (upholds : (session.manager number).Upholds (updatesInProgress number session.chronicle)
      change) :
    session.Behaves (some number) back (session.change number change) where
  toLeadsTo := .change known allowed silent warrant continues
  attends _ := .change (.change known allowed silent) goesOn upholds.attended
  concludes := concludes_change upholds.concludes
  names names := names.change number change

/-- An update begins and does not come to its end. -/
theorem update_begun {number : Nat} {version : Int} {session : Session}
    (known : session.Knows number)
    (notOlder : (session.manager number).latest.version ≤ version)
    (rest : (session.change number (.updateBegun version)).Behaves (some number) false after) :
    session.Behaves (some number) false after := by
  have begun : session.LeadsTo (some number) true
      (session.change number (.updateBegun version)) :=
    .change known notOlder (fun _ => rfl) (fun _ => trivial) fun _ => rfl
  refine
    { toLeadsTo := begun.trans rest.toLeadsTo
      attends := fun other => ?_
      concludes := fun other concludes =>
        rest.concludes other (concludes_change id other concludes)
      names := fun names => rest.names (names.change number _) }
  by_cases same : number = other
  · subst same
    exact .of_begun begun.unfolds.evolves (rest.attends number)
  · exact .trans (.change_of_ne same begun.unfolds.evolves) (rest.attends other)

/-- An update begins and ends. -/
theorem update_ended {number : Nat} {version : Int} {session : Session}
    (known : session.Knows number)
    (notOlder : (session.manager number).latest.version ≤ version)
    (rest : (session.change number (.updateBegun version)).Behaves (some number) true after)
    (status : UpdateStatus)
    (concluded : (session.manager number).IsAttended
        (updatesInProgress number session.chronicle) →
      (after.manager number).latest.stage = .parsed →
      (after.manager number).latest.version = version →
        version ≤ (after.manager number).settled ∨
          version ∈ updatesInProgress number session.chronicle) :
    session.Behaves (some number) true (after.change number (.updateEnded version status)) := by
  have begun : session.LeadsTo (some number) true
      (session.change number (.updateBegun version)) :=
    .change known notOlder (fun _ => rfl) (fun _ => trivial) fun _ => rfl
  have stillKnown := (begun.unfolds.evolves.trans rest.evolves).mem_managers known
  have ended : after.LeadsTo (some number) true
      (after.change number (.updateEnded version status)) :=
    .change stillKnown trivial (fun _ => rfl) (fun _ => trivial) fun _ => rfl
  refine
    { toLeadsTo := (begun.trans rest.toLeadsTo).trans ended
      attends := fun other => ?_
      concludes := fun other concludes => concludes_change id other
        (rest.concludes other (concludes_change id other concludes))
      names := fun names => (rest.names (names.change number _)).change number _ }
  by_cases same : number = other
  · subst same
    exact .of_ended begun.unfolds.evolves (rest.attends number) ended.unfolds.evolves concluded
  · exact .trans (.trans (.change_of_ne same begun.unfolds.evolves) (rest.attends other))
      (.change_of_ne same ended.unfolds.evolves)

/-- A snapshot becomes the latest one and is announced. -/
theorem accept {number : Nat} {snapshot : Snapshot} {publications : List Publication}
    {session : Session} (known : session.Knows number)
    (current : ¬snapshot.Precedes (session.manager number).latest)
    (announces : Announces snapshot.version snapshot.announcements publications)
    (grounds : snapshot.HasGrounds number session.chronicle (session.manager number).latest)
    (warrant : session.KeepsJournals →
      snapshot.HasWarrant number session.options session.chronicle)
    (upholds : (session.manager number).Upholds (updatesInProgress number session.chronicle)
      (.accepted snapshot)) :
    session.Behaves (some number) back
      ((session.change number (.accepted snapshot)).enter
        (publications.map (.published number))) := by
  have unfolds := Unfolds.accept known current announces grounds
  let accepted := session.change number (.accepted snapshot)
  -- The snapshot is accepted before it is published, so the manager has it at every entry.
  have each {entry : ChronicleEntry}
      (mem : entry ∈ [⟨session.depth, accepted.managers, .changed number (.accepted snapshot)⟩] ++
        (publications.map (Event.published number)).map fun event =>
          ⟨session.depth, accepted.managers, event⟩) :
      entry.managers = accepted.managers ∧
        (∀ other, entry.event.beginsVerification other = false) ∧
        ∀ other updates, entry.event.updatesAfter other updates = updates := by
    rcases List.mem_append.mp mem with isAccepted | isPublished
    · obtain rfl := List.mem_singleton.mp isAccepted
      exact ⟨rfl, fun _ => rfl, fun _ _ => rfl⟩
    · obtain ⟨publication, _, rfl⟩ : ∃ publication ∈ publications, _ = entry := by
        simpa using isPublished
      exact ⟨rfl, fun _ => rfl, fun _ _ => rfl⟩
  refine
    { toLeadsTo := .of_unfolds unfolds (.accept publications warrant) ?_
        (List.append_assoc _ _ _) fun entry mem => (each mem).2.1
      attends := fun other => .of_same unfolds.evolves (List.append_assoc _ _ _)
        (fun entry mem => (each mem).2.2 other) fun wasAttended entry mem => ?_
      concludes := concludes_change upholds.concludes
      names := fun names => (names.change number _).of_managers_eq rfl id }
  · intro other ne _
    rw [manager_enter]
    exact session.manager_change_of_ne (fun same => ne (congrArg some same)) _
  · rw [(each mem).1]
    change (accepted.manager other).IsAttended _
    by_cases same : number = other
    · subst same
      rw [manager_change_self]
      exact upholds.attended wasAttended
    · rw [manager_change_of_ne _ same]
      exact wasAttended

/-- The verification of a version comes to an end with a complete snapshot, which is logged,
and settles the version. -/
theorem finish {number : Nat} {version : Int} {verified : Verified} {session : Session}
    (known : session.Knows number) (complete : verified.complete = true)
    (isVersion : verified.compilation.version = version)
    (reached : version ≤ (session.manager number).latest.version)
    (seen : HasSeen number (.verified verified) session.chronicle) (lines : List String) :
    session.Behaves (some number) back
      (((session.change number (.verificationEnded version)).enter (lines.map .logged)).change
        number (.verified version verified)) := by
  let ended := session.change number (.verificationEnded version)
  have logged : ended.Behaves (some number) true (ended.enter (lines.map .logged)) :=
    .enter (by simp [Event.isIncidental])
  have ends : session.LeadsTo (some number) true ended :=
    .change known trivial (fun _ => rfl) (fun _ => trivial) fun _ => rfl
  have evolves := ends.unfolds.evolves.trans logged.evolves
  have stillSeen : HasSeen number (.verified verified)
      (ended.enter (lines.map .logged)).chronicle := (seen.append _).append _
  have settles : (ended.enter (lines.map .logged)).LeadsTo (some number) back
      ((ended.enter (lines.map .logged)).change number (.verified version verified)) :=
    .change (evolves.mem_managers known)
      ⟨complete, isVersion, Int.le_trans reached (evolves.version_le known)⟩ (fun _ => rfl)
      (fun _ => stillSeen) fun _ => rfl
  refine
    { toLeadsTo := (ends.trans logged.toLeadsTo).trans settles
      attends := fun other => ?_
      concludes := fun other concludes => ?_
      names := fun names => (logged.names (names.change number _)).change number _ }
  · have first : session.Attends other true ended :=
      .change ends.unfolds.evolves (fun _ _ => rfl) fun attended =>
        attended.verificationEnded version
    exact (first.trans (logged.attends other)).trans
      (.change settles.unfolds.evolves (fun _ _ => rfl) fun attended =>
        attended.settle version (some verified))
  · by_cases same : number = other
    · subst same
      rw [manager_change_self, manager_enter, manager_change_self]
      exact Manager.concludes_verified verified concludes
    · rw [manager_change_of_ne _ same, manager_enter, manager_change_of_ne _ same]
      exact concludes

theorem openProject {session : Session} (wellNumbered : session.WellNumbered)
    (compilation : Compilation) :
    session.Behaves acting back (session.openProject compilation).1 := by
  have unfolds := Unfolds.openProject wellNumbered compilation
  have records : session.Records (session.openProject compilation).1 := .openProject compilation
  have names : session.NamesProjects → (session.openProject compilation).1.NamesProjects :=
    fun names => names.openProject wellNumbered compilation
  unfold Session.openProject at unfolds records names ⊢
  split
  · exact .of_surroundings rfl rfl rfl rfl id
  · rename_i unopened
    rw [unopened] at unfolds records names
    have unloaded : (Manager.initial compilation).latest.stage = .unloaded := rfl
    -- The number of the new manager is not in use, so there is nothing to look after yet.
    have opened {property : Manager → Prop}
        (initial : property default → property (.initial compilation)) (number : Nat)
        (held : property (session.manager number)) :
        property ((session.managers.insert session.managers.size
          (.initial compilation)).getD number default) := by
      rw [Std.ExtTreeMap.getD_insert]
      split
      · rename_i same
        obtain rfl : session.managers.size = number := by simpa using same
        have unknown := mt (wellNumbered.mem_managers session.managers.size).mp (Nat.lt_irrefl _)
        rw [manager, Std.ExtTreeMap.getD_eq_fallback unknown] at held
        exact initial held
      · exact held
    refine
      { toLeadsTo := .of_unfolds unfolds records ?_ rfl ?_
        attends := fun number => .of_same unfolds.evolves rfl ?_ ?_
        concludes := opened fun _ => Manager.concludes_of_stage_ne (by simp [unloaded])
        names := names }
    · intro number _ known
      have below := (wellNumbered.mem_managers number).mp known
      simp [manager, Session.enter, Std.ExtTreeMap.getD_insert, Nat.ne_of_gt below]
    · intro entry mem
      obtain rfl := List.mem_singleton.mp mem
      exact fun _ => rfl
    · intro entry mem
      obtain rfl := List.mem_singleton.mp mem
      exact fun _ => rfl
    · intro wasAttended entry mem
      obtain rfl := List.mem_singleton.mp mem
      exact @opened (fun manager => manager.IsAttended _)
        (fun attended => ⟨attended.inFlight, by simp [unloaded]⟩) number wasAttended

/-- An action on whose behalf nothing is done is carried out on behalf of any manager. -/
theorem acting_of_none (behaves : before.Behaves none back after) (acting : Option Nat) :
    before.Behaves acting back after :=
  { behaves with steady := fun number _ => behaves.steady number (by simp) }

/-- An action on behalf of a manager that leaves it alone when it is held. -/
theorem none_of_acting {number : Nat} (behaves : before.Behaves (some number) back after)
    (steady : (before.manager number).IsHeld →
      (after.manager number).latest.version = (before.manager number).latest.version →
      after.manager number = before.manager number) : before.Behaves none back after := by
  refine { behaves with steady := fun other _ => ?_ }
  by_cases same : other = number
  · subst same
    exact ⟨behaves.evolves, steady⟩
  · exact behaves.steady other (by simpa using Ne.symm same)

end Behaves

end Session

theorem isDiscipline_behaves (acting : Option Nat) : IsDiscipline (Session.Behaves acting) where
  evolves := Session.Behaves.evolves
  hasJournal behaves := behaves.records.hasJournal
  trans := Session.Behaves.trans
  of_surroundings := Session.Behaves.of_surroundings
  of_incidental := Session.Behaves.enter
  of_openJournal := Session.Behaves.openJournal
  of_report := Session.Behaves.report
  of_resolving := Session.Behaves.enter_resolving

end Proofline
