import Proofline.Proofs.Warrants
import Proofline.Session.CounterexampleRequest
import Proofline.Session.Script
import Proofline.Session.Update

/-!
# The conduct of services

Loading and verifying call services between reading the session and recording
events. They respect every discipline that the services respect, and services
that follow a plan respect what the steps of the plan respect.
-/

namespace Proofline

/-- Whether a manager exists. -/
def Session.Knows (number : Nat) (session : Session) : Prop :=
  number ∈ session.managers

/-- Whether the calls of all services respect a relation. -/
structure Services.Respect (relation : Bool → Session → Session → Prop) (services : Services) :
    Prop where
  parse : ∀ compilation journal, SessionM.Respects relation (services.parse compilation journal)
  resolve : ∀ project program, SessionM.Respects relation (services.resolve project program)
  signatures : ∀ symbols, SessionM.Respects relation (services.signatures symbols)
  symbols : ∀ program compilation,
    SessionM.Respects relation (services.symbols program compilation)
  ghosts : ∀ signatures, SessionM.Respects relation (services.ghosts signatures)
  verify : ∀ unit, SessionM.Respects relation (services.verify unit)

namespace SessionM

variable {relation : Bool → Session → Session → Prop} {α : Type}

section Reading

variable (discipline : IsDiscipline relation)

include discipline

theorem respects_get : Respects relation (get : SessionM Session) :=
  .read discipline fun _ => rfl

theorem respects_isCanceled : Respects relation isCanceled :=
  .read discipline fun _ => rfl

theorem respects_cancel : Respects relation cancel :=
  .of_surroundings discipline (fun _ => rfl) (fun _ => rfl) (fun _ => rfl) (fun _ => rfl)
    fun _ => rfl

theorem respects_manager (number : Nat) : Respects relation (manager number) :=
  .read discipline fun _ => rfl

theorem respects_journal (number : Nat) : Respects relation (journal number) :=
  .read discipline fun _ => rfl

theorem meets_openJournal (project : String) :
    Meets relation (fun _ => True) (openJournal project) fun number session =>
      session.HasJournal number project := by
  intro session _ _
  refine ⟨discipline.of_openJournal session project, ?_⟩
  rintro _ ⟨⟩
  change ((session.journals ++ [.empty session.options project])[session.journals.length]?).map
    Journal.project = some project
  simp [Journal.empty]

theorem respects_report (number : Nat) (report : Report) :
    Respects relation (SessionM.report number report) :=
  fun session _ _ => ⟨discipline.of_report session number report, fun _ _ => trivial⟩

theorem respects_reportFailure (component message : String) :
    Respects relation (reportFailure component message) :=
  .record discipline rfl

theorem respects_waitUntil (number : Nat) (condition : Manager → Bool) :
    Respects relation (waitUntil number condition) := by
  apply Respects.bind discipline (respects_manager discipline number)
  intro _
  apply Respects.ite (.pure discipline true)
  apply Respects.bind discipline (respects_isCanceled discipline)
  intro _
  exact .ite (.pure discipline false) (.throw discipline .stuck)

theorem respects_awaitVerified (number : Nat) : Respects relation (awaitVerified number) := by
  apply Respects.bind discipline (respects_manager discipline number)
  intro _
  apply Respects.bind discipline (respects_waitUntil discipline number _)
  intro _
  refine .ite ?_ (.pure discipline none)
  exact .bind discipline (respects_manager discipline number) fun _ => .pure discipline _

theorem respects_migrateTrees (tag : String) (previous : ProgressTrees)
    (compilation : Compilation) : Respects relation (migrateTrees tag previous compilation) := by
  refine .bind discipline ?_ fun _ => .pure discipline _
  exact .forM discipline (fun _ => .log discipline tag .debug _) _

end Reading

section Loading

variable (discipline : IsDiscipline relation) {services : Services}
  (respect : services.Respect relation)

include discipline respect

/-- A version is parsed with the trees carried over to it and shows what was reported. -/
theorem meets_parse (compilation : Compilation) (migrated : ProgressTrees) :
    Meets relation (fun _ => True) (parse services compilation migrated) fun result session =>
      ∀ parsed, result = .ok parsed → parsed.compilation = compilation ∧
        parsed.trees = Parsed.initialTrees compilation migrated ∧
        parsed.MatchesJournal session := by
  have stable (number : Nat) := isStable_hasJournal discipline number compilation.project
  apply Meets.bind discipline (respects_isCanceled discipline)
  intro _
  apply Meets.ite (.pure discipline (by simp))
  apply Meets.bind discipline (meets_openJournal discipline _)
  intro number
  apply Meets.bind discipline ((Respects.record discipline rfl).keep (stable number))
  intro _
  apply Meets.bind discipline ((respect.parse compilation number).keep (stable number))
  intro module
  apply Meets.bind discipline ((respects_isCanceled discipline).keep (stable number))
  intro _
  apply Meets.ite (.pure discipline (by simp))
  apply Meets.bind discipline (.read discipline (fun session => session.journal number)
    fun _ => rfl)
  intro journal
  apply Meets.bind discipline (.log discipline _ _ _ fun _ _ => id)
  intro _
  apply Meets.pure discipline
  rintro session ⟨opened, isJournal⟩ _ ⟨⟩
  exact ⟨rfl, rfl, opened, congrArg Journal.byUri isJournal⟩

theorem respects_parse (compilation : Compilation) (migrated : ProgressTrees) :
    Respects relation (parse services compilation migrated) :=
  (meets_parse discipline respect compilation migrated).respects fun _ => trivial

theorem respects_collectSymbols (program : Program) (compilation : Compilation) :
    Respects relation (collectSymbols services program compilation) := by
  apply Respects.bind discipline (respects_journal discipline _)
  intro _
  apply Respects.ite (.pure discipline _)
  apply Respects.bind discipline (.record discipline rfl)
  intro _
  exact respect.symbols program compilation

/-- The units of a program that its journal allows to be collected. -/
def allowedUnits? (program : Program) (compilation : Compilation) (session : Session) :
    Option (List Declaration) :=
  if (session.journal program.journal).tally.hasEarlyErrors then
    some []
  else
    Declaration.collectUnits? program.module compilation session.canceled

omit discipline respect in
theorem run_collectUnits (program : Program) (compilation : Compilation) (session : Session) :
    (collectUnits program compilation).run session =
      (.ok (allowedUnits? program compilation session), session) := by
  rw [collectUnits, run_bind, run_journal, allowedUnits?]
  simp only
  split <;> rfl

omit discipline respect in
theorem hasUnits_of_allowed {session : Session} {resolved : Resolved}
    (allowed : allowedUnits? resolved.parsed.program resolved.compilation session =
      some resolved.units) :
    resolved.HasUnits
      ((session.journal resolved.parsed.program.journal).tally.hasEarlyErrors = true) := by
  unfold allowedUnits? at allowed
  split at allowed
  · exact Or.inl (Option.some.inj allowed).symm
  · rename_i clean
    exact Or.inr ⟨clean, Declaration.collectUnits?_of_eq_some allowed⟩

omit respect in
/-- The units of a resolved version are collected, and what it shows is read, when nothing
more is reported. -/
theorem meets_finishResolution (number : Nat) (latest : Snapshot) (parsed : Parsed)
    (migrated : ProgressTrees) (signatures : SignatureTable) (symbols : SymbolTable)
    (ghosts : List Diagnostic) :
    Meets relation (fun session => HasBegunResolving number latest parsed session.chronicle)
      (finishResolution parsed migrated signatures symbols ghosts)
      fun result session => ∀ resolved, result = .ok resolved → resolved.parsed = parsed ∧
        resolved.trees = Resolved.pendingTrees parsed migrated resolved.units ∧
        resolved.MatchesJournal number latest session := by
  apply Meets.bind discipline
    (.read discipline (allowedUnits? parsed.program parsed.compilation) (run_collectUnits _ _))
  intro collected
  cases collected with
  | none => exact .pure discipline (by simp)
  | some units =>
      apply Meets.bind discipline (.read discipline Session.canceled fun _ => rfl)
      intro _
      apply Meets.ite (.pure discipline (by simp))
      apply Meets.bind discipline
        (.read discipline (fun session => session.journal parsed.program.journal) fun _ => rfl)
      intro journal
      refine Meets.bind discipline (.log discipline _ _ _ ?_) fun _ => .pure discipline ?_
      · rintro session events ⟨⟨⟨begun, allowed⟩, notCanceled⟩, isJournal⟩
        exact ⟨⟨⟨begun.append _, allowed⟩, notCanceled⟩, isJournal⟩
      · rintro session ⟨⟨⟨begun, allowed⟩, _⟩, isJournal⟩ _ ⟨⟩
        exact ⟨rfl, rfl, begun, congrArg Journal.byUri isJournal,
          hasUnits_of_allowed allowed.symm⟩

/-- A version is resolved with pending nodes in those of its trees that were not carried
over, and shows what was reported. -/
theorem meets_resolve (number : Nat) (latest : Snapshot) (parsed : Parsed)
    (migrated : ProgressTrees) :
    Meets relation (fun session => (session.manager number).latest = latest)
      (resolve services parsed migrated) fun result session =>
      ∀ resolved, result = .ok resolved → resolved.parsed = parsed ∧
        resolved.trees = Resolved.pendingTrees parsed migrated resolved.units ∧
        resolved.MatchesJournal number latest session := by
  have stable : IsStable relation fun session =>
      HasBegunResolving number latest parsed session.chronicle :=
    isStable_chronicle discipline fun _ later begun => begun.append later
  apply Meets.bind discipline (.read discipline Session.canceled fun _ => rfl)
  intro _
  apply Meets.ite (.pure discipline (by simp))
  apply Meets.bind discipline
    (.read discipline (fun session => session.journal parsed.program.journal) fun _ => rfl)
  intro journal
  split
  · exact Meets.bind discipline (Meets.anywhere (Respects.log discipline _ _ _))
      fun _ => .pure discipline (by simp)
  · rename_i clean
    have begins : Meets relation
        (fun session => (session.manager number).latest = latest ∧
          journal = session.journal parsed.program.journal)
        (record (.resolving parsed.compilation.project parsed.program.journal))
        fun _ session => HasBegunResolving number latest parsed session.chronicle := by
      rintro session _ ⟨isLatest, rfl⟩
      refine ⟨discipline.of_resolving (Bool.eq_false_iff.mpr clean), fun _ _ => ?_⟩
      exact ⟨_, List.mem_append_right _ (List.mem_singleton_self _), isLatest, rfl⟩
    apply Meets.bind discipline (begins.imp (fun _ pre => ⟨pre.1.1, pre.2⟩) fun _ _ => id)
    intro _
    apply Meets.bind discipline ((respect.resolve _ _).keep stable)
    intro resolved
    apply Meets.bind discipline ((Respects.record discipline rfl).keep stable)
    intro _
    apply Meets.bind discipline ((respect.signatures resolved).keep stable)
    intro signatures
    apply Meets.bind discipline ((respects_collectSymbols discipline respect _ _).keep stable)
    intro _
    apply Meets.bind discipline ((Respects.record discipline rfl).keep stable)
    intro _
    apply Meets.bind discipline ((respect.ghosts signatures).keep stable)
    intro _
    exact meets_finishResolution discipline number latest _ _ _ _ _

theorem respects_resolve (parsed : Parsed) (migrated : ProgressTrees) :
    Respects relation (resolve services parsed migrated) := by
  intro session wellNumbered _
  exact ⟨(meets_resolve discipline respect 0 _ parsed migrated session wellNumbered rfl).1,
    fun _ _ => trivial⟩

end Loading

section Scripts

variable {σ : Type} (discipline : IsDiscipline relation) {perform : σ → SessionM Answer}
  (inner : ∀ step, Respects relation (perform step))

include discipline inner

theorem respects_runSteps (steps : List σ) : Respects relation (Script.runSteps perform steps) := by
  induction steps with
  | nil => exact .pure discipline ()
  | cons step rest ih =>
      apply Respects.bind discipline (inner step)
      intro _
      exact .bind discipline (.record discipline rfl) fun _ => ih

theorem respects_follow {report : Report → SessionM Unit}
    (reports : ∀ given, Respects relation (report given)) (script : Script σ α) :
    Respects relation (script.follow perform report) := by
  have ending :
      Respects relation (script.reports.forM report >>= fun _ => script.conclude) := by
    apply Respects.bind discipline (.forM discipline reports script.reports)
    intro _
    unfold Script.conclude
    cases script.failure with
    | some message => exact .throw discipline _
    | none => exact .pure discipline _
  apply Respects.bind discipline (respects_runSteps discipline inner script.steps)
  intro _
  exact .ite (.bind discipline (respects_cancel discipline) fun _ => ending) ending

/-- Services that follow a plan respect what the steps of the plan respect. -/
theorem respect_services (plan : Plan σ) : (plan.services perform).Respect relation := by
  have silent (given : Report) : Respects relation (Plan.noJournal given) := .pure discipline ()
  constructor
  · exact fun _ journal =>
      respects_follow discipline inner (respects_report discipline journal) plan.parse
  · exact fun _ program =>
      respects_follow discipline inner (respects_report discipline program.journal) plan.resolve
  · exact fun _ => .bind discipline (respects_follow discipline inner silent plan.signatures)
      fun _ => .pure discipline _
  · exact fun _ _ => .bind discipline (respects_follow discipline inner silent plan.symbols)
      fun _ => .pure discipline _
  · exact fun _ => respects_follow discipline inner silent plan.ghosts
  · exact fun unit => respects_follow discipline inner silent (plan.verify unit)

end Scripts

end SessionM

end Proofline
