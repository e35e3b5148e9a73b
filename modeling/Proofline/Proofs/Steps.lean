import Proofline.Proofs.Conduct
import Proofline.Session.Step

/-!
# The conduct of steps

Only opening projects, updates and verification change managers. A discipline
that these respect whenever the services they call respect it is respected by
every request, and therefore by every step, however deeply the steps of its
services nest, and by every run.
-/

namespace Proofline

namespace SessionM

variable {relation : Bool → Session → Session → Prop} {α : Type}

/-- Whether a relation is respected by what changes managers, as long as it is
respected by services. -/
structure ManagersRespect (relation : Bool → Session → Session → Prop) : Prop where
  openProject : ∀ {session : Session} (compilation : Compilation), session.WellNumbered →
    relation true session (session.openProject compilation).1
  update : ∀ {services : Services}, services.Respect relation → ∀ number compilation,
    Meets relation (Session.Knows number) (update services number compilation)
      fun _ _ => True
  verifyEverything : ∀ {services : Services}, services.Respect relation → ∀ number,
    Meets relation (Session.Knows number) (verifyEverything services number)
      fun _ _ => True

section Requests

variable (discipline : IsDiscipline relation)

include discipline

theorem respects_withManager {number : Nat} {action : SessionM α}
    (known : Meets relation (Session.Knows number) action fun _ _ => True) :
    Respects relation (withManager number action) := by
  apply Meets.bind discipline (Meets.read discipline id fun _ => rfl)
  intro session
  split
  · rename_i mem
    refine known.imp ?_ fun _ _ => id
    rintro s ⟨_, rfl⟩
    exact mem
  · exact Meets.throw discipline _

theorem respects_keep (name : Option String) (value : Keepsake) :
    Respects relation (keep name value) := by
  cases name with
  | none => exact .pure discipline ()
  | some name =>
      exact .of_surroundings discipline (fun _ => rfl) (fun _ => rfl) (fun _ => rfl)
        (fun _ => rfl) fun _ => rfl

theorem respects_keepSnapshot (name : Option String) (snapshot : Snapshot) :
    Respects relation (keepSnapshot name snapshot) :=
  .bind discipline (respects_keep discipline _ _) fun _ => .pure discipline _

theorem respects_keepsake (name : String) : Respects relation (keepsake name) := by
  apply Respects.bind discipline (respects_get discipline)
  intro session
  cases session.kept[name]? with
  | none => exact .throw discipline _
  | some value => exact .pure discipline value

theorem respects_keptTrees (name : Option String) : Respects relation (keptTrees name) := by
  cases name with
  | none => exact .pure discipline ∅
  | some name =>
      exact .bind discipline (respects_keepsake discipline name) fun _ => .pure discipline _

theorem respects_itemsOfVerified (uri : String) (depth : Nat) (verified : Verified) :
    Respects relation (itemsOfVerified uri depth verified) := by
  apply Respects.ite
  · exact .bind discipline (.log discipline _ _ _) fun _ => .pure discipline _
  · apply Respects.bind discipline (respects_isCanceled discipline)
    intro canceled
    rcases Model.extract verified.counterexamples depth canceled with (_ | _) | items
    · exact .pure discipline _
    · exact .bind discipline (respects_reportFailure discipline _ _) fun _ => .pure discipline _
    · exact .pure discipline _

variable {services : Services} (respect : services.Respect relation)
  (managers : ManagersRespect relation)

include respect managers

theorem meets_counterexamplesOf (number : Nat) (uri : String) (depth : Nat) :
    Meets relation (Session.Knows number) (counterexamplesOf services number uri depth)
      fun _ _ => True := by
  apply Meets.bind discipline (managers.verifyEverything respect number)
  intro _
  apply Meets.bind discipline (respects_awaitVerified discipline number)
  intro verified
  cases verified with
  | none =>
      apply Respects.bind discipline (respects_manager discipline number)
      intro _
      exact .bind discipline (.log discipline _ _ _) fun _ => .pure discipline _
  | some verified => exact respects_itemsOfVerified discipline uri depth verified

omit discipline respect managers in
/-- A document belongs to a project whose manager exists. -/
theorem knows_of_findProject? {session : Session} (wellNumbered : session.WellNumbered)
    {uri : String} {number : Nat} (found : session.findProject? uri = some number) :
    session.Knows number := by
  rcases Option.map_eq_some_iff.mp found with ⟨⟨project, opened⟩, entry, rfl⟩
  have listed := List.mem_of_find?_eq_some entry
  exact wellNumbered.mem_of_catalog (Std.ExtTreeMap.mem_toList_iff_getElem?_eq_some.mp listed)

theorem respects_counterexamples (uri : String) (depth : Nat) :
    Respects relation (counterexamples services uri depth) := by
  intro session wellNumbered _
  rw [counterexamples, run_bind, run_get]
  simp only
  cases found : session.findProject? uri with
  | none =>
      exact Respects.bind discipline (.log discipline _ _ _) (fun _ => .pure discipline _)
        session wellNumbered trivial
  | some number =>
      exact meets_counterexamplesOf discipline respect managers number uri depth session
        wellNumbered (knows_of_findProject? wellNumbered found)

theorem respects_serveCounterexamples (uri : String) (depth : Nat) :
    Respects relation (serveCounterexamples services uri depth) := by
  refine .bind discipline
    (Respects.attempt (respects_counterexamples discipline respect managers uri depth))
    fun result => ?_
  cases result with
  | ok items => exact .pure discipline items
  | error message =>
      exact .bind discipline (respects_reportFailure discipline _ _) fun _ => .pure discipline _

end Requests

/-- A project is opened. -/
theorem respects_openProject (managers : ManagersRespect relation) (services : Services)
    (compilation : Compilation) :
    Respects relation ((Request.openProject compilation).carryOut services) :=
  fun _ wellNumbered _ => ⟨managers.openProject compilation wellNumbered, fun _ _ => trivial⟩

theorem respects_closeProject (discipline : IsDiscipline relation) (services : Services)
    (project : String) : Respects relation ((Request.closeProject project).carryOut services) := by
  intro session _ _
  refine ⟨discipline.of_surroundings rfl rfl rfl rfl ?_, fun _ _ => trivial⟩
  intro other number opened
  change (session.catalog.erase project)[other]? = some number at opened
  rw [Std.ExtTreeMap.getElem?_erase] at opened
  split at opened
  · contradiction
  · exact opened

end SessionM

open SessionM

variable {relation : Bool → Session → Session → Prop}

/-- Every request respects what opening projects, updates and verification
respect. -/
theorem Request.respects_carryOut (discipline : IsDiscipline relation)
    (managers : ManagersRespect relation) {services : Services}
    (respect : services.Respect relation) (request : Request) :
    Respects relation (request.carryOut services) := by
  cases request with
  | openProject compilation => exact respects_openProject managers services compilation
  | findProject uri =>
      exact .bind discipline (respects_get discipline) fun _ => .pure discipline _
  | closeProject project => exact respects_closeProject discipline services project
  | update number compilation =>
      apply respects_withManager discipline
      exact Meets.bind discipline (managers.update respect number compilation) fun _ =>
        Respects.pure discipline _
  | verify number =>
      apply respects_withManager discipline
      exact Meets.bind discipline (managers.verifyEverything respect number) fun _ =>
        Respects.pure discipline _
  | await number =>
      refine respects_withManager discipline (Meets.anywhere ?_)
      exact Respects.bind discipline (respects_awaitVerified discipline number) fun _ =>
        .pure discipline _
  | latest number name =>
      refine respects_withManager discipline (Meets.anywhere ?_)
      exact Respects.bind discipline (respects_manager discipline number) fun _ =>
        respects_keepSnapshot discipline _ _
  | contains number uri | projectUri number =>
      refine respects_withManager discipline (Meets.anywhere ?_)
      exact Respects.bind discipline (respects_manager discipline number) fun _ =>
        .pure discipline _
  | counterexamples uri depth =>
      exact .bind discipline
        (respects_serveCounterexamples discipline respect managers uri depth)
        fun _ => .pure discipline _
  | watch number =>
      cases number with
      | none =>
          exact .of_surroundings discipline (fun _ => rfl) (fun _ => rfl) (fun _ => rfl)
            (fun _ => rfl) fun _ => rfl
      | some number =>
          refine respects_withManager discipline (Meets.anywhere ?_)
          exact Respects.of_surroundings discipline (fun _ => rfl) (fun _ => rfl) (fun _ => rfl)
            (fun _ => rfl) fun _ => rfl
  | onPublish trigger =>
      exact .of_surroundings discipline (fun _ => rfl) (fun _ => rfl) (fun _ => rfl)
        (fun _ => rfl) fun _ => rfl
  | unloaded compilation name => exact respects_keepSnapshot discipline _ _
  | parse compilation migrated name =>
      apply Respects.bind discipline (respects_keptTrees discipline migrated)
      intro trees
      apply Respects.bind discipline (respects_parse discipline respect compilation trees)
      intro result
      cases result with
      | error reason => exact .pure discipline _
      | ok parsed => exact respects_keepSnapshot discipline _ _
  | resolve parsed migrated name =>
      apply Respects.bind discipline (respects_keptTrees discipline migrated)
      intro trees
      apply Respects.bind discipline (respects_keepsake discipline parsed)
      intro kept
      split
      · apply Respects.bind discipline (respects_resolve discipline respect _ trees)
        intro result
        cases result with
        | error reason => exact .pure discipline _
        | ok resolved => exact respects_keepSnapshot discipline _ _
      · exact .throw discipline _
  | startVerified resolved name =>
      apply Respects.bind discipline (respects_keepsake discipline resolved)
      intro kept
      split
      · exact respects_keepSnapshot discipline _ _
      · exact .throw discipline _
  | withResult verified unit outcome name =>
      apply Respects.bind discipline (respects_keepsake discipline verified)
      intro kept
      split
      · exact respects_keepSnapshot discipline _ _
      · exact .throw discipline _
  | keptSnapshot name =>
      apply Respects.bind discipline (respects_keepsake discipline name)
      intro kept
      cases kept with
      | snapshot snapshot => exact .pure discipline _
      | trees trees => exact .throw discipline _
  | migrate source compilation name =>
      apply Respects.bind discipline (respects_keepsake discipline source)
      intro kept
      apply Respects.bind discipline (respects_migrateTrees discipline _ _ _)
      intro trees
      exact .bind discipline (respects_keep discipline _ _) fun _ => .pure discipline _

/-- A step respects what the steps of its services respect. -/
theorem StepOf.respects_perform {σ : Type} (discipline : IsDiscipline relation)
    (managers : ManagersRespect relation) {inner : σ → SessionM Answer}
    (innerRespects : ∀ step, Respects relation (inner step)) (step : StepOf σ) :
    Respects relation (step.perform inner) := by
  intro session wellNumbered _
  have begun : relation true session
      { session with depth := session.depth + 1, canceled := step.canceled } :=
    discipline.of_surroundings rfl rfl rfl rfl id
  have carried := (Respects.attempt <| step.request.respects_carryOut discipline managers
    (respect_services discipline innerRespects step.plan)) _
    ((discipline.evolves begun).wellNumbered wellNumbered) trivial
  simp only [StepOf.perform, run_bind, run_get, run_set]
  rcases ran : (attempt (step.request.carryOut (step.plan.services inner))).run
      { session with depth := session.depth + 1, canceled := step.canceled } with
    ⟨outcome, after⟩
  rw [ran] at carried
  cases outcome with
  | error stop =>
      constructor
      · cases stop with
        | failed | stuck | misused => exact discipline.trans begun carried.1
      · simp
  | ok result =>
      refine ⟨discipline.trans (discipline.trans begun carried.1) ?_, fun _ _ => trivial⟩
      exact discipline.of_surroundings rfl rfl rfl rfl id

/-- Steps respect a discipline at every depth of nesting. -/
theorem Step.respects_perform (discipline : IsDiscipline relation)
    (managers : ManagersRespect relation) (n : Nat) (step : Step n) :
    Respects relation (Step.perform n step) := by
  induction n with
  | zero => exact StepOf.respects_perform discipline managers (fun inner => nomatch inner) step
  | succ n ih => exact StepOf.respects_perform discipline managers ih step

/-- No project is open at the start. -/
theorem Session.wellNumbered_initial (options : Options) :
    (Session.initial options).WellNumbered where
  mem_managers number := by simp [Session.initial]
  mem_of_catalog opened := by simp [Session.initial] at opened

/-- Every run respects what opening projects, updates and verification
respect. -/
theorem Session.related_run (discipline : IsDiscipline relation)
    (managers : ManagersRespect relation) (options : Options) (n : Nat) (steps : List (Step n)) :
    relation (Session.cameBack (Session.run options n steps).1) (Session.initial options)
      (Session.run options n steps).2 :=
  (Respects.mapM discipline (Step.respects_perform discipline managers n) steps
    (Session.initial options) (Session.wellNumbered_initial options) trivial).1

end Proofline
