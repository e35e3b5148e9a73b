import Proofline.Proofs.Evolution

/-!
# Contracts of actions

An action on a session keeps a contract when the session it leaves behind
stands in a fixed relation to the one it began with, however the action ends,
and when the value it returns, if any, satisfies a postcondition. The relation
may tell whether the action came back to its caller. It is what may be assumed
about an action of which nothing else is known, such as a service that runs
further steps.
-/

namespace Proofline

/-- Whether an action came back to its caller, with a value or a failure. -/
def Session.cameBack {α : Type} : Except Stop α → Bool
  | .ok _ | .error (.failed _) => true
  | .error .stuck | .error .misused => false

/-- Whether a journal was opened for a project. -/
def Session.HasJournal (number : Nat) (project : String) (session : Session) : Prop :=
  (session.journals[number]?).map Journal.project = some project

/-- Whether an event tells neither of a manager nor of what it has done for its
client, nor of a journal, nor that it calls the resolver or the verifier. -/
def Event.isIncidental : Event → Bool
  | .opened _ _ | .changed _ _ | .published _ _ | .reported _ _ | .resolving _ _
  | .verifying _ _ _ => false
  | _ => true

/-- A relation between the sessions before and after whatever runs in them and
may come back or not. It holds at least where no manager is concerned, and a
journal is only opened or reported to. -/
structure IsDiscipline (relation : Bool → Session → Session → Prop) : Prop where
  evolves : ∀ {back before after}, relation back before after → before.Evolves after
  hasJournal : ∀ {back before after number project}, relation back before after →
    before.HasJournal number project → after.HasJournal number project
  trans : ∀ {back first second third}, relation true first second →
    relation back second third → relation back first third
  of_surroundings : ∀ {back} {before after : Session}, after.managers = before.managers →
    after.chronicle = before.chronicle → after.journals = before.journals →
    after.options = before.options →
    (∀ {project : String} {number : Nat}, after.catalog[project]? = some number →
      before.catalog[project]? = some number) →
    relation back before after
  of_incidental : ∀ {back} {session : Session} {events : List Event},
    (∀ event ∈ events, event.isIncidental = true) → relation back session (session.enter events)
  of_openJournal : ∀ {back} (session : Session) (project : String),
    relation back session (session.openJournal project)
  of_report : ∀ {back} (session : Session) (number : Nat) (report : Report),
    relation back session (session.report number report)
  /-- The resolver is called while a journal has no errors. -/
  of_resolving : ∀ {back} {session : Session} {project : String} {number : Nat},
    (session.journal number).tally.hasErrors = false →
    relation back session (session.enter [.resolving project number])

theorem IsDiscipline.refl {relation : Bool → Session → Session → Prop}
    (discipline : IsDiscipline relation) (back : Bool) (session : Session) :
    relation back session session :=
  discipline.of_surroundings rfl rfl rfl rfl id

/-- Whether a fact about a session outlives whatever runs in it. -/
def IsStable (relation : Bool → Session → Session → Prop) (fact : Session → Prop) : Prop :=
  ∀ back before after, relation back before after → fact before → fact after

theorem IsStable.and {relation : Bool → Session → Session → Prop} {first second : Session → Prop}
    (firstStable : IsStable relation first) (secondStable : IsStable relation second) :
    IsStable relation fun session => first session ∧ second session :=
  fun back before after related both =>
    ⟨firstStable back before after related both.1, secondStable back before after related both.2⟩

theorem isStable_hasJournal {relation : Bool → Session → Session → Prop}
    (discipline : IsDiscipline relation) (number : Nat) (project : String) :
    IsStable relation (Session.HasJournal number project) :=
  fun _ _ _ => discipline.hasJournal

/-- What is told by a part of the chronicle remains told. -/
theorem isStable_chronicle {relation : Bool → Session → Session → Prop}
    (discipline : IsDiscipline relation) {fact : List ChronicleEntry → Prop}
    (grows : ∀ entries later, fact entries → fact (entries ++ later)) :
    IsStable relation fun session => fact session.chronicle := by
  intro back before after related holds
  rcases (discipline.evolves related).chronicle_grows with ⟨later, chronicleEq⟩
  exact chronicleEq ▸ grows before.chronicle later holds

namespace SessionM

variable {relation : Bool → Session → Session → Prop} {α β : Type}

/-- The contract of an action under a relation. -/
def Meets (relation : Bool → Session → Session → Prop) (pre : Session → Prop)
    (action : SessionM α) (post : α → Session → Prop) : Prop :=
  ∀ session : Session, session.WellNumbered → pre session →
    relation (Session.cameBack (action.run session).1) session (action.run session).2 ∧
      ∀ value, (action.run session).1 = .ok value → post value (action.run session).2

/-- The contract that asks for nothing but the relation. -/
def Respects (relation : Bool → Session → Session → Prop) (action : SessionM α) : Prop :=
  Meets relation (fun _ => True) action fun _ _ => True

namespace Meets

variable {pre stronger : Session → Prop} {action : SessionM α} {post weaker : α → Session → Prop}
  {mid : α → Session → Prop} {next : α → SessionM β} {last : β → Session → Prop}

theorem bind (discipline : IsDiscipline relation) (first : Meets relation pre action mid)
    (rest : ∀ value, Meets relation (mid value) (next value) last) :
    Meets relation pre (action >>= next) last := by
  intro session wellNumbered holds
  rcases first session wellNumbered holds with ⟨related, returned⟩
  rw [run_bind]
  rcases ran : action.run session with ⟨outcome, after⟩
  rw [ran] at related returned
  cases outcome with
  | error stop =>
      constructor
      · cases stop with
        | failed | stuck | misused => exact related
      · simp
  | ok value =>
      have middle := (discipline.evolves related).wellNumbered wellNumbered
      rcases rest value after middle (returned value rfl) with ⟨later, result⟩
      exact ⟨discipline.trans related later, result⟩

theorem imp (first : Meets relation pre action post) (before : ∀ s, stronger s → pre s)
    (after : ∀ value s, post value s → weaker value s) :
    Meets relation stronger action weaker := by
  intro session wellNumbered holds
  rcases first session wellNumbered (before session holds) with ⟨related, returned⟩
  exact ⟨related, fun value ran => after value _ (returned value ran)⟩

/-- What needs no precondition meets its contract under any. -/
theorem anywhere (first : Meets relation (fun _ => True) action post) :
    Meets relation pre action post :=
  first.imp (fun _ _ => trivial) fun _ _ => id

theorem respects (first : Meets relation pre action post) (always : ∀ s, pre s) :
    Respects relation action :=
  first.imp (fun s _ => always s) fun _ _ _ => trivial

theorem mono {finer : Bool → Session → Session → Prop} (first : Meets finer pre action post)
    (coarser : ∀ back before after, finer back before after → relation back before after) :
    Meets relation pre action post := by
  intro session wellNumbered holds
  rcases first session wellNumbered holds with ⟨related, returned⟩
  exact ⟨coarser _ _ _ related, returned⟩

/-- What is stable still holds afterwards. -/
theorem and_keep (first : Meets relation pre action post) {fact : Session → Prop}
    (stable : IsStable relation fact) (holds : ∀ s, pre s → fact s) :
    Meets relation pre action fun value s => post value s ∧ fact s := by
  intro session wellNumbered pre
  rcases first session wellNumbered pre with ⟨related, returned⟩
  exact ⟨related, fun value ran =>
    ⟨returned value ran, stable _ _ _ related (holds session pre)⟩⟩

theorem keep (first : Meets relation pre action post) {fact : Session → Prop}
    (stable : IsStable relation fact) (holds : ∀ s, pre s → fact s) :
    Meets relation pre action fun _ => fact :=
  (first.and_keep stable holds).imp (fun _ => id) fun _ _ => And.right

theorem attempt (first : Meets relation pre action post) :
    Meets relation pre (attempt action) fun result s =>
      ∀ value, result = .ok value → post value s := by
  intro session wellNumbered holds
  rcases first session wellNumbered holds with ⟨related, returned⟩
  rw [run_attempt]
  rcases ran : action.run session with ⟨outcome, after⟩
  rw [ran] at related returned
  rcases outcome with (message | _ | _) | value
  · exact ⟨related, by simp⟩
  · exact ⟨related, by simp⟩
  · exact ⟨related, by simp⟩
  · refine ⟨related, ?_⟩
    rintro _ ⟨⟩ _ ⟨⟩
    exact returned value rfl

theorem pure (discipline : IsDiscipline relation) {value : α} (holds : ∀ s, pre s → post value s) :
    Meets relation pre (Pure.pure value) post := by
  intro session wellNumbered pre
  constructor
  · exact discipline.refl true session
  · rintro _ ⟨⟩
    exact holds session pre

theorem throw (discipline : IsDiscipline relation) (stop : Stop) :
    Meets relation pre (throw stop : SessionM α) post :=
  fun session _ _ => ⟨discipline.refl _ session, by simp⟩

theorem ite {condition : Prop} [Decidable condition] {first second : SessionM α}
    (holds : Meets relation pre first post) (fails : Meets relation pre second post) :
    Meets relation pre (if condition then first else second) post := by
  split
  · exact holds
  · exact fails

/-- An action that only looks at the session. -/
theorem read (discipline : IsDiscipline relation) (view : Session → α)
    (reads : ∀ session, action.run session = (.ok (view session), session)) :
    Meets relation pre action fun value s => pre s ∧ value = view s := by
  intro session wellNumbered pre
  rw [reads]
  constructor
  · exact discipline.refl true session
  · rintro _ ⟨⟩
    exact ⟨pre, rfl⟩

/-- A log line leaves all facts that do not depend on the chronicle, or grow with it. -/
theorem log (discipline : IsDiscipline relation) (tag : String) (level : LogLevel)
    (message : String) {fact : Session → Prop}
    (enters : ∀ (s : Session) (events : List Event), fact s → fact (s.enter events)) :
    Meets relation fact (log tag level message) fun _ => fact := by
  intro session _ holds
  rw [run_log]
  refine ⟨discipline.of_incidental ?_, fun _ _ => enters session _ holds⟩
  simp [Event.isIncidental]

/-- An action that changes the session in one go. -/
theorem modify {change : Session → Session} {action : SessionM Unit}
    (modifies : ∀ session, action.run session = (.ok (), change session))
    (related : ∀ s, s.WellNumbered → pre s → relation true s (change s)) :
    Meets relation pre action fun _ _ => True := by
  intro session wellNumbered pre
  rw [modifies]
  exact ⟨related session wellNumbered pre, fun _ _ => trivial⟩

end Meets

namespace Respects

variable {action : SessionM α} {next : α → SessionM β}

theorem bind (discipline : IsDiscipline relation) (first : Respects relation action)
    (rest : ∀ value, Respects relation (next value)) : Respects relation (action >>= next) :=
  Meets.bind discipline first rest

theorem pure (discipline : IsDiscipline relation) (value : α) :
    Respects relation (Pure.pure value : SessionM α) :=
  Meets.pure discipline fun _ _ => trivial

theorem throw (discipline : IsDiscipline relation) (stop : Stop) :
    Respects relation (throw stop : SessionM α) :=
  Meets.throw discipline stop

/-- What is stable still holds afterwards. -/
theorem keep (first : Respects relation action) {fact : Session → Prop}
    (stable : IsStable relation fact) : Meets relation fact action fun _ => fact :=
  Meets.keep (Meets.anywhere first) stable fun _ => id

theorem attempt (first : Respects relation action) : Respects relation (attempt action) :=
  (Meets.attempt first).respects fun _ => trivial

/-- An action that only looks at the session. -/
theorem read (discipline : IsDiscipline relation) (reads : ∀ s, (action.run s).2 = s) :
    Respects relation action := by
  intro session _ _
  rw [reads]
  exact ⟨discipline.refl _ session, fun _ _ => trivial⟩

/-- An action that leaves the managers, the journals and the chronicle as they are. -/
theorem of_surroundings (discipline : IsDiscipline relation)
    (managers : ∀ s, (action.run s).2.managers = s.managers)
    (chronicle : ∀ s, (action.run s).2.chronicle = s.chronicle)
    (journals : ∀ s, (action.run s).2.journals = s.journals)
    (options : ∀ s, (action.run s).2.options = s.options)
    (catalog : ∀ s, (action.run s).2.catalog = s.catalog) : Respects relation action := by
  intro session _ _
  constructor
  · apply discipline.of_surroundings (managers _) (chronicle _) (journals _) (options _)
    rw [catalog]
    exact id
  · exact fun _ _ => trivial

theorem ite {condition : Prop} [Decidable condition] {first second : SessionM α}
    (holds : Respects relation first) (fails : Respects relation second) :
    Respects relation (if condition then first else second) :=
  Meets.ite holds fails

/-- Something is recorded that concerns no manager. -/
theorem record (discipline : IsDiscipline relation) {event : Event}
    (incidental : event.isIncidental = true) : Respects relation (record event) :=
  fun _ _ _ => ⟨discipline.of_incidental (by simpa using incidental), fun _ _ => trivial⟩

theorem log (discipline : IsDiscipline relation) (tag : String) (level : LogLevel)
    (message : String) : Respects relation (log tag level message) :=
  Meets.log discipline tag level message fun _ _ => id

theorem forM (discipline : IsDiscipline relation) {body : α → SessionM Unit}
    (each : ∀ value, Respects relation (body value)) (values : List α) :
    Respects relation (values.forM body) := by
  induction values with
  | nil => exact Respects.pure discipline ()
  | cons value rest ih => exact Respects.bind discipline (each value) fun _ => ih

theorem mapM (discipline : IsDiscipline relation) {body : α → SessionM β}
    (each : ∀ value, Respects relation (body value)) (values : List α) :
    Respects relation (values.mapM body) := by
  induction values with
  | nil => exact Respects.pure discipline []
  | cons value rest ih =>
      rw [List.mapM_cons]
      apply Respects.bind discipline (each value)
      intro _
      exact Respects.bind discipline ih fun _ => Respects.pure discipline _

end Respects

end SessionM

end Proofline
