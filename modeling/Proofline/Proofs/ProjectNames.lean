import Proofline.Proofs.Evolution

/-!
# The names of projects

A manager keeps the name under which its project was opened, whatever the versions it is
updated to say, and a project that is open is in the catalog under this name. The managers of
different open projects therefore differ.
-/

namespace Proofline

/-- Nothing that happens to a manager changes the name of its project. -/
@[simp]
theorem Manager.project_after (manager : Manager) (change : Change) :
    (manager.after change).project = manager.project := by
  cases change with
  | verificationEnded version =>
      rw [after]
      split <;> rfl
  | _ => rfl

namespace Session

/-- Whether the projects in the catalog go by the names that their managers keep. -/
def NamesProjects (session : Session) : Prop :=
  ∀ (project : String) (number : Nat), session.catalog[project]? = some number →
    (session.manager number).project = project

namespace NamesProjects

variable {before after session : Session}

/-- Different open projects have different managers. -/
theorem eq_of_number_eq (names : session.NamesProjects) {first second : String} {number : Nat}
    (isFirst : session.catalog[first]? = some number)
    (isSecond : session.catalog[second]? = some number) : first = second :=
  (names first number isFirst).symm.trans (names second number isSecond)

/-- Projects may be closed. -/
theorem of_managers_eq (names : before.NamesProjects)
    (managers : after.managers = before.managers)
    (catalog : ∀ {project : String} {number : Nat}, after.catalog[project]? = some number →
      before.catalog[project]? = some number) : after.NamesProjects := by
  intro project number opened
  rw [manager, managers]
  exact names project number (catalog opened)

theorem change (names : session.NamesProjects) (number : Nat) (change : Change) :
    (session.change number change).NamesProjects := by
  intro project other opened
  have named : (session.manager other).project = project :=
    names project other opened
  by_cases same : number = other
  · subst same
    rw [manager_change_self, Manager.project_after, named]
  · rw [manager_change_of_ne _ same, named]

theorem openProject (names : session.NamesProjects) (wellNumbered : session.WellNumbered)
    (compilation : Compilation) : (session.openProject compilation).1.NamesProjects := by
  unfold Session.openProject
  split
  · exact names
  · intro project number opened
    simp only [enter, manager, Std.ExtTreeMap.getElem?_insert, Std.ExtTreeMap.getD_insert]
      at opened ⊢
    split at opened
    · rename_i isNew
      obtain rfl : session.managers.size = number := Option.some.inj opened
      rw [if_pos (by simp)]
      simpa [Manager.initial] using isNew
    · have known := (wellNumbered.mem_managers number).mp (wellNumbered.mem_of_catalog opened)
      rw [if_neg (by simpa using Nat.ne_of_gt known)]
      exact names project number opened

end NamesProjects

end Session

end Proofline
