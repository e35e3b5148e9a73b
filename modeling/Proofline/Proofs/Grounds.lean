import Proofline.Proofs.Evolution

/-!
# The grounds of events

A manager does not come to a snapshot out of nothing. A parsed version takes over the
progress trees of the snapshot that was the latest one when its update began, a
resolved version follows its parsed version, and a verified snapshot adds the result
of one more unit to the latest one. The verifier is called for units without a result
only. Along a grounded chronicle every event has such grounds in what came before it.
-/

namespace Proofline

/-- The managers after entries, the first of which found the given ones. -/
def managersAfter (managers : Table Nat Manager) (entries : List ChronicleEntry) :
    Table Nat Manager :=
  (entries.getLast?.map ChronicleEntry.managers).getD managers

theorem managersAfter_append (managers : Table Nat Manager)
    (entries later : List ChronicleEntry) :
    managersAfter managers (entries ++ later) =
      managersAfter (managersAfter managers entries) later := by
  unfold managersAfter
  rw [List.getLast?_append]
  cases later.getLast? <;> rfl

theorem History.managersAfter_eq {first second : Table Nat Manager}
    {entries : List ChronicleEntry} (history : History first entries second) :
    managersAfter first entries = second := by
  cases history with
  | refl => rfl
  | step depth earlier next => simp [managersAfter]

/-- A history leads through the managers after any part of its entries. -/
theorem History.of_append {first second : Table Nat Manager}
    {entries later : List ChronicleEntry} (history : History first (entries ++ later) second) :
    History first entries (managersAfter first entries) := by
  rcases List.eq_nil_or_concat entries with rfl | ⟨others, last, rfl⟩
  · exact .refl first
  · rw [List.concat_eq_append, List.append_assoc] at history
    rw [List.concat_eq_append]
    have cut := (history.split rfl).1
    rwa [cut.managersAfter_eq]

/-- An entry of a chronicle of two parts is in the second part or in the first one. -/
theorem split_append {entries later earlier rest : List ChronicleEntry} {entry : ChronicleEntry}
    (parts : entries ++ later = earlier ++ entry :: rest) :
    (∃ between, earlier = entries ++ between ∧ later = between ++ entry :: rest) ∨
      ∃ between, entries = earlier ++ entry :: between ∧ rest = between ++ later := by
  rcases List.append_eq_append_iff.mp parts with ⟨between, isEarlier, isLater⟩ |
    ⟨between, isEntries, isRest⟩
  · exact Or.inl ⟨between, isEarlier, isLater⟩
  · cases between with
    | nil => exact Or.inl ⟨[], by simpa using isEntries.symm, isRest.symm⟩
    | cons head tail =>
        obtain ⟨rfl, sameRest⟩ := List.cons.inj isRest
        exact Or.inr ⟨tail, isEntries, sameRest⟩

/-- Whether each of some entries stands to the entries before it in a certain way, `past` being
those before all of them. -/
def Successively (fact : List ChronicleEntry → ChronicleEntry → Prop)
    (past entries : List ChronicleEntry) : Prop :=
  ∀ earlier entry later, entries = earlier ++ entry :: later → fact (past ++ earlier) entry

namespace Successively

variable {fact : List ChronicleEntry → ChronicleEntry → Prop}
  {past entries later : List ChronicleEntry}

theorem of_forall (each : ∀ entry ∈ entries, ∀ past, fact past entry) :
    Successively fact past entries := by
  rintro earlier entry later rfl
  exact each entry (by simp) _

theorem append (first : Successively fact past entries)
    (second : Successively fact (past ++ entries) later) :
    Successively fact past (entries ++ later) := by
  intro earlier entry rest parts
  rcases split_append parts with ⟨between, rfl, isLater⟩ | ⟨between, isEntries, _⟩
  · rw [← List.append_assoc]
    exact second between entry rest isLater
  · exact first earlier entry between isEntries

/-- One entry after another one or at the start. -/
theorem single {entry : ChronicleEntry} (holds : fact past entry) :
    Successively fact past [entry] := by
  intro earlier other rest parts
  rcases List.singleton_eq_append_iff.mp parts with ⟨rfl, isEntry⟩ | ⟨_, none_left⟩
  · obtain ⟨rfl, _⟩ := List.cons.inj isEntry
    simpa using holds
  · cases none_left

end Successively

/-- Whether an update of a manager to a version began when `origin` was the latest
snapshot. Until the manager comes to the version, `origin` remains the latest one. -/
def UpdateBegan (number : Nat) (version : Int) (origin : Snapshot)
    (entries : List ChronicleEntry) : Prop :=
  ∃ before begun rest, entries = before ++ begun :: rest ∧
    begun.event = .changed number (.updateBegun version) ∧ begun.latest number = origin ∧
    ∀ entry ∈ rest, entry.latest number = origin ∨ version ≤ (entry.latest number).version

theorem UpdateBegan.append {number : Nat} {version : Int} {origin : Snapshot}
    {entries later : List ChronicleEntry} (began : UpdateBegan number version origin entries)
    (kept : ∀ entry ∈ later,
      entry.latest number = origin ∨ version ≤ (entry.latest number).version) :
    UpdateBegan number version origin (entries ++ later) := by
  rcases began with ⟨before, begun, rest, rfl, isBegun, isOrigin, restKept⟩
  refine ⟨before, begun, rest ++ later, by simp, isBegun, isOrigin, ?_⟩
  intro entry mem
  rcases List.mem_append.mp mem with mem | mem
  · exact restKept entry mem
  · exact kept entry mem

/-- The snapshots that come right after a latest one while a version is verified. -/
inductive Verified.Follows : Snapshot → Verified → Prop
  | start (base : Resolved) : Follows (.resolved base) (.start base)
  | withResult (partly : Verified) {unit : Declaration} (outcome : Outcome)
      (mem : unit ∈ partly.resolved.units) (pending : unit.key ∉ partly.results) :
      Follows (.verified partly) (partly.withResult unit outcome)

/-- The grounds on which a manager accepts a snapshot. -/
def Snapshot.HasGrounds (number : Nat) (past : List ChronicleEntry)
    (snapshot latest : Snapshot) : Prop :=
  match snapshot with
  | .unloaded _ => True
  | .parsed snapshot => ∃ origin,
      UpdateBegan number snapshot.compilation.version origin past ∧
        snapshot.trees = Parsed.initialTrees snapshot.compilation
          (origin.trees.migrate snapshot.compilation)
  | .resolved snapshot => latest = .parsed snapshot.parsed ∧ ∃ migrated,
      snapshot.trees = Resolved.pendingTrees snapshot.parsed migrated snapshot.units
  | .verified snapshot => Verified.Follows latest snapshot

/-- The grounds of an event in what happened before it. -/
def Event.HasGrounds (past : List ChronicleEntry) (managers : Table Nat Manager) :
    Event → Prop
  | .changed number (.accepted snapshot) =>
      snapshot.HasGrounds number past (managers.getD number default).latest
  | .verifying number version unit =>
      (managers.getD number default).verifying = some version ∧
        ∃ partly, (managers.getD number default).latest = .verified partly ∧
          partly.compilation.version = version ∧ unit ∈ partly.resolved.units ∧
          unit.key ∉ partly.results
  | _ => True

/-- Whether each of some entries has its grounds in the entries before it and in `past`,
after which the managers were the given ones. -/
def Grounded (past : List ChronicleEntry) (managers : Table Nat Manager)
    (entries : List ChronicleEntry) : Prop :=
  ∀ earlier entry later, entries = earlier ++ entry :: later →
    entry.event.HasGrounds (past ++ earlier) (managersAfter managers earlier)

namespace Grounded

variable {past entries later : List ChronicleEntry} {managers : Table Nat Manager}

theorem of_forall
    (grounds : ∀ entry ∈ entries, ∀ past managers, entry.event.HasGrounds past managers) :
    Grounded past managers entries := by
  rintro earlier entry later rfl
  exact grounds entry (by simp) _ _

theorem append (first : Grounded past managers entries)
    (second : Grounded (past ++ entries) (managersAfter managers entries) later) :
    Grounded past managers (entries ++ later) := by
  intro earlier entry rest parts
  rcases split_append parts with ⟨between, rfl, isLater⟩ | ⟨between, isEntries, _⟩
  · rw [managersAfter_append, ← List.append_assoc]
    exact second between entry rest isLater
  · exact first earlier entry between isEntries

/-- One entry after another one or at the start. -/
theorem single {entry : ChronicleEntry} (grounds : entry.event.HasGrounds past managers) :
    Grounded past managers [entry] := by
  intro earlier other rest parts
  rcases List.singleton_eq_append_iff.mp parts with ⟨rfl, isEntry⟩ | ⟨_, none_left⟩
  · obtain ⟨rfl, _⟩ := List.cons.inj isEntry
    simpa [managersAfter] using grounds
  · cases none_left

end Grounded

namespace Session

/-- `after` continues the chronicle of `before` as `Evolves` has it, and what happens in
between has grounds. -/
structure Unfolds (before after : Session) : Prop where
  evolves : before.Evolves after
  grounded : ∀ entries, after.chronicle = before.chronicle ++ entries →
    Grounded before.chronicle before.managers entries

namespace Unfolds

variable {first second third before after session : Session}

theorem trans (earlier : first.Unfolds second) (later : second.Unfolds third) :
    first.Unfolds third where
  evolves := earlier.evolves.trans later.evolves
  grounded := by
    intro entries chronicleEq
    rcases earlier.evolves.history with ⟨former, formerEq, history, _⟩
    rcases later.evolves.history with ⟨latter, latterEq, _, _⟩
    obtain rfl : entries = former ++ latter := by
      rw [latterEq, formerEq, List.append_assoc] at chronicleEq
      exact (List.append_cancel_left chronicleEq).symm
    apply (earlier.grounded former formerEq).append
    rw [history.managersAfter_eq, ← formerEq]
    exact later.grounded latter latterEq

/-- What happens needs no grounds. -/
theorem of_evolves (evolves : before.Evolves after) {entries : List ChronicleEntry}
    (chronicleEq : after.chronicle = before.chronicle ++ entries)
    (grounds : ∀ entry ∈ entries, ∀ past managers, entry.event.HasGrounds past managers) :
    before.Unfolds after where
  evolves := evolves
  grounded := by
    intro others othersEq
    obtain rfl : others = entries := List.append_cancel_left (othersEq.symm.trans chronicleEq)
    exact .of_forall grounds

/-- Nothing but the surroundings of the managers changes. -/
theorem of_surroundings (managers : after.managers = before.managers)
    (chronicle : after.chronicle = before.chronicle)
    (catalog : ∀ {project : String} {number : Nat}, after.catalog[project]? = some number →
      before.catalog[project]? = some number) : before.Unfolds after := by
  have nothing : after.chronicle = before.chronicle ++ [] := by simpa using chronicle
  exact .of_evolves (.of_surroundings managers chronicle catalog) nothing (by simp)

theorem enter {events : List Event} (spares : ∀ event ∈ events, event.sparesManagers = true)
    (silent : ∀ event ∈ events, ∀ number, event.dispatch? number = none)
    (grounds : ∀ event ∈ events, ∀ past managers, event.HasGrounds past managers) :
    session.Unfolds (session.enter events) := by
  apply of_evolves (.enter spares silent) rfl
  intro entry mem
  rcases List.mem_map.mp mem with ⟨event, isEvent, rfl⟩
  exact grounds event isEvent

/-- The verifier is called. -/
theorem enter_verifying {number : Nat} {version : Int} {unit : Declaration}
    (grounds : (Event.verifying number version unit).HasGrounds session.chronicle
      session.managers) :
    session.Unfolds (session.enter [.verifying number version unit]) where
  evolves := .enter (by simp [Event.sparesManagers]) (by simp [Event.dispatch?])
  grounded := by
    intro entries chronicleEq
    obtain rfl := List.append_cancel_left chronicleEq
    exact .single grounds

theorem change {number : Nat} {change : Change} (known : number ∈ session.managers)
    (allowed : (session.manager number).Allows change)
    (silent : ∀ other, (Event.changed number change).dispatch? other = none) :
    session.Unfolds (session.change number change) := by
  apply of_evolves (.change known allowed silent) rfl
  intro entry mem past managers
  obtain rfl := List.mem_singleton.mp mem
  cases change with
  | accepted snapshot => simpa [Event.dispatch?] using silent number
  | _ => trivial

/-- A snapshot becomes the latest one and is announced. -/
theorem accept {number : Nat} {snapshot : Snapshot} {publications : List Publication}
    (known : number ∈ session.managers)
    (current : ¬snapshot.Precedes (session.manager number).latest)
    (announces : Announces snapshot.version snapshot.announcements publications)
    (grounds : snapshot.HasGrounds number session.chronicle (session.manager number).latest) :
    session.Unfolds
      ((session.change number (.accepted snapshot)).enter
        (publications.map (.published number))) where
  evolves := .accept known current announces
  grounded := by
    intro entries chronicleEq
    rw [Session.enter, Session.change, Session.enter, List.append_assoc] at chronicleEq
    obtain rfl := List.append_cancel_left chronicleEq
    refine Grounded.append (.single grounds) (.of_forall ?_)
    intro entry mem
    obtain ⟨publication, _, rfl⟩ : ∃ publication ∈ publications, _ = entry := by
      simpa using mem
    exact fun _ _ => trivial

theorem openProject (wellNumbered : session.WellNumbered) (compilation : Compilation) :
    session.Unfolds (session.openProject compilation).1 := by
  have evolves := Evolves.openProject wellNumbered compilation
  unfold Session.openProject at evolves ⊢
  split
  · exact .of_surroundings rfl rfl id
  · rename_i unopened
    rw [unopened] at evolves
    apply of_evolves evolves rfl
    intro entry mem _ _
    obtain rfl := List.mem_singleton.mp mem
    trivial

end Unfolds

end Session

end Proofline
