import Proofline.Proofs.Verifying

/-!
# The conduct of managers

Opening projects, updates and verification behave whenever the services they call do,
so every step behaves at every depth of nesting, and so does every run. Sessions are
reached by evolving from one in which nothing has happened, they occur when what
happened on the way has its grounds, and they arise when it is warranted as well.
-/

namespace Proofline

namespace SessionM

open Session (Behaves)

theorem managersRespect_behaves : ManagersRespect (Behaves none) where
  openProject compilation wellNumbered := .openProject wellNumbered compilation
  update respect _ compilation := meets_update respect compilation
  verifyEverything respect number :=
    Meets.anywhere (respects_verifyEverything respect.verify number)

end SessionM

/-- Steps behave at every depth of nesting. -/
theorem Step.behaves_perform (n : Nat) (step : Step n) :
    SessionM.Respects (Session.Behaves none) (Step.perform n step) :=
  Step.respects_perform (isDiscipline_behaves none) SessionM.managersRespect_behaves n step

namespace Session

/-- Every run behaves. -/
theorem behaves_run (options : Options) (n : Nat) (steps : List (Step n)) :
    (initial options).Behaves none (cameBack (run options n steps).1) (run options n steps).2 :=
  related_run (isDiscipline_behaves none) SessionM.managersRespect_behaves options n steps

/-- Every run is an evolution of the session in which nothing has happened. -/
theorem evolves_run (options : Options) (n : Nat) (steps : List (Step n)) :
    (initial options).Evolves (run options n steps).2 :=
  (behaves_run options n steps).evolves

/-- Whether a session evolved from one in which nothing had happened. Runs lead to
such sessions only, and so does everything on the way. -/
def IsReachable (session : Session) : Prop :=
  ∃ options, (initial options).Evolves session

theorem isReachable_run (options : Options) (n : Nat) (steps : List (Step n)) :
    (run options n steps).2.IsReachable :=
  ⟨options, evolves_run options n steps⟩

namespace IsReachable

variable {session : Session}

theorem wellNumbered (reachable : session.IsReachable) : session.WellNumbered := by
  rcases reachable with ⟨options, evolves⟩
  exact evolves.wellNumbered (wellNumbered_initial options)

/-- What a session evolves to can be reached as well. -/
theorem of_evolves (reachable : session.IsReachable) {after : Session}
    (evolves : session.Evolves after) : after.IsReachable := by
  rcases reachable with ⟨options, before⟩
  exact ⟨options, before.trans evolves⟩

/-- The chronicle of a session tells its whole history. -/
theorem history (reachable : session.IsReachable) :
    History ∅ session.chronicle session.managers ∧
      ∀ number, AnnouncesFaithfully number session.chronicle := by
  rcases reachable with ⟨options, evolves⟩
  rcases evolves.history with ⟨entries, chronicleEq, history, faithful⟩
  obtain rfl : session.chronicle = entries := chronicleEq
  exact ⟨history, faithful⟩

/-- No manager has ever been at a newer version than now. -/
theorem version_le_of_mem (reachable : session.IsReachable) {entry : ChronicleEntry}
    (mem : entry ∈ session.chronicle) {number : Nat} (known : number ∈ entry.managers) :
    (entry.latest number).version ≤ (session.manager number).latest.version := by
  rcases List.append_of_mem mem with ⟨earlier, later, parts⟩
  have kept := (reachable.history.1.split parts).2.not_precedes known
  exact Int.not_lt.mp fun older => kept (Or.inl older)

end IsReachable

/-- Whether a session unfolded from one in which nothing had happened. Like reachable
sessions these include all that runs lead to, and everything on the way. -/
def Occurs (session : Session) : Prop :=
  ∃ options, (initial options).Unfolds session

theorem occurs_run (options : Options) (n : Nat) (steps : List (Step n)) :
    (run options n steps).2.Occurs :=
  ⟨options, (behaves_run options n steps).unfolds⟩

namespace Occurs

variable {session : Session}

theorem isReachable (occurs : session.Occurs) : session.IsReachable := by
  rcases occurs with ⟨options, unfolds⟩
  exact ⟨options, unfolds.evolves⟩

/-- What a session unfolds to occurs as well. -/
theorem of_unfolds (occurs : session.Occurs) {after : Session} (unfolds : session.Unfolds after) :
    after.Occurs := by
  rcases occurs with ⟨options, before⟩
  exact ⟨options, before.trans unfolds⟩

/-- Whatever happened in a session has its grounds. -/
theorem grounded (occurs : session.Occurs) : Grounded [] ∅ session.chronicle := by
  rcases occurs with ⟨options, unfolds⟩
  exact unfolds.grounded session.chronicle rfl

end Occurs

/-- Whether a session unfolded from one in which nothing had happened, and recorded what
is warranted. These sessions too include all that runs lead to, and everything on the
way. -/
def Arises (session : Session) : Prop :=
  ∃ options, (initial options).Unfolds session ∧ (initial options).Records session

theorem arises_run (options : Options) (n : Nat) (steps : List (Step n)) :
    (run options n steps).2.Arises :=
  ⟨options, (behaves_run options n steps).unfolds, (behaves_run options n steps).records⟩

theorem options_run (options : Options) (n : Nat) (steps : List (Step n)) :
    (run options n steps).2.options = options :=
  (behaves_run options n steps).records.options

/-- At the start there is no journal. -/
theorem keepsJournals_initial (options : Options) : (initial options).KeepsJournals where
  eq_journalAfter opened := by simp [initial] at opened
  unopened _ := rfl

namespace Arises

variable {session : Session}

theorem occurs (arises : session.Arises) : session.Occurs := by
  rcases arises with ⟨options, unfolds, _⟩
  exact ⟨options, unfolds⟩

/-- Whatever happened in a session is warranted. -/
theorem warranted (arises : session.Arises) :
    Warranted session.options [] session.chronicle := by
  rcases arises with ⟨options, _, records⟩
  rcases records.warranted with ⟨entries, chronicleEq, warranted⟩
  obtain rfl : session.chronicle = entries := chronicleEq
  rw [records.options]
  exact warranted (keepsJournals_initial options)

/-- What runs in a session leads to others that arise. -/
theorem of_behaves (arises : session.Arises) {acting : Option Nat} {back : Bool}
    {after : Session} (behaves : session.Behaves acting back after) : after.Arises := by
  rcases arises with ⟨options, unfolds, records⟩
  exact ⟨options, unfolds.trans behaves.unfolds, records.trans behaves.records⟩

end Arises

/-- Whether a session arises, and every version that is verified in full is settled or being
verified. What is on the way between two actions may arise only; requests are carried out in
sessions that obtain. -/
structure Obtains (session : Session) : Prop where
  arises : session.Arises
  concludes : ∀ number, (session.manager number).Concludes

namespace Obtains

variable {session : Session}

/-- What runs in a session leads to others that obtain. -/
theorem of_behaves (obtains : session.Obtains) {acting : Option Nat} {back : Bool}
    {after : Session} (behaves : session.Behaves acting back after) : after.Obtains where
  arises := obtains.arises.of_behaves behaves
  concludes number := behaves.concludes number (obtains.concludes number)

end Obtains

theorem obtains_initial (options : Options) : (initial options).Obtains where
  arises := ⟨options, .of_surroundings rfl rfl id, .of_surroundings rfl rfl rfl⟩
  concludes _ := Manager.concludes_of_stage_ne nofun

theorem obtains_run (options : Options) (n : Nat) (steps : List (Step n)) :
    (run options n steps).2.Obtains :=
  (obtains_initial options).of_behaves (behaves_run options n steps)

end Session

end Proofline
