import Proofline.Proofs.Catalog
import Proofline.Proofs.Managers
import Proofline.Proofs.ScriptedVerifier

/-!
# Looking up projects

A name is looked up among the open projects in the order of their names: the first one that
goes by the name, or has a root document of this name, is found. Names of projects and names of
documents are not told apart, so an open project is not found under its own name while a project
before it has a root document of that name.
-/

namespace Proofline.Session

/-- Whether the latest version of a manager has a root document of the given name. -/
def HasRoot (number : Nat) (uri : String) (session : Session) : Prop :=
  uri ∈ (session.manager number).latest.compilation.rootUris

instance (number : Nat) (uri : String) (session : Session) :
    Decidable (session.HasRoot number uri) :=
  inferInstanceAs (Decidable (_ ∈ _))

/-- How a name is looked up in a session. -/
structure FindsProjects (uri : String) (session : Session) : Prop where
  /-- A manager is found exactly if an open project goes by the name or has a root document of
  this name. -/
  isSome_iff : (session.findProject? uri).isSome = true ↔ uri ∈ session.catalog ∨
    ∃ (project : String) (number : Nat), session.catalog[project]? = some number ∧
      session.HasRoot number uri
  /-- It is the manager of the first such project. -/
  eq_some_iff : ∀ number, session.findProject? uri = some number ↔
    ∃ project : String, session.catalog[project]? = some number ∧
      (uri = project ∨ session.HasRoot number uri) ∧
      ∀ (other : String) (rival : Nat), session.catalog[other]? = some rival → other < project →
        uri ≠ other ∧ ¬session.HasRoot rival uri
  /-- The manager of an open project goes by the name of the project. -/
  named : ∀ {number}, session.catalog[uri]? = some number → (session.manager number).project = uri
  /-- An open project is found under its own name exactly if no project before it has a root
  document of this name. -/
  own_iff : ∀ {number}, session.catalog[uri]? = some number →
    (session.findProject? uri = some number ↔
      ∀ (other : String) (rival : Nat), session.catalog[other]? = some rival → other < uri →
        ¬session.HasRoot rival uri)

/-- A manager is found exactly if a document belongs to an open project. -/
theorem isSome_findProject?_iff {session : Session} {uri : String} :
    (session.findProject? uri).isSome = true ↔
      ∃ (project : String) (number : Nat), session.catalog[project]? = some number ∧
        (session.manager number).contains uri = true := by
  simp only [findProject?, Option.isSome_map, List.find?_isSome, Prod.exists,
    mem_toList_catalog]

namespace NamesProjects

variable {session : Session} (names : session.NamesProjects) {project uri : String} {number : Nat}

include names

theorem contains_iff (opened : session.catalog[project]? = some number) :
    (session.manager number).contains uri = true ↔ uri = project ∨ session.HasRoot number uri := by
  rw [Manager.contains, Bool.or_eq_true, decide_eq_true_eq, names project number opened,
    Compilation.isRoot_iff]
  rfl

/-- What it means to come first. -/
theorem isFirstOwner_iff : session.IsFirstOwner uri number ↔
    ∃ project : String, session.catalog[project]? = some number ∧
      (uri = project ∨ session.HasRoot number uri) ∧
      ∀ (other : String) (rival : Nat), session.catalog[other]? = some rival → other < project →
        uri ≠ other ∧ ¬session.HasRoot rival uri := by
  refine exists_congr fun project => and_congr_right fun opened =>
    and_congr (names.contains_iff opened) ?_
  refine forall_congr' fun other => forall_congr' fun rival => forall_congr' fun isRival =>
    forall_congr' fun _ => ?_
  rw [← not_or, ← names.contains_iff isRival, Bool.not_eq_true]

/-- Where open projects go by the names of their managers, names are looked up in the order of
the projects. -/
theorem findsProjects (uri : String) : session.FindsProjects uri where
  isSome_iff := by
    rw [isSome_findProject?_iff]
    constructor
    · rintro ⟨project, number, opened, owns⟩
      rcases (names.contains_iff opened).mp owns with rfl | isRoot
      · exact Or.inl (Std.ExtTreeMap.mem_iff_isSome_getElem?.mpr (by simp [opened]))
      · exact Or.inr ⟨project, number, opened, isRoot⟩
    · rintro (isOpen | ⟨project, number, opened, isRoot⟩)
      · have opened := Std.ExtTreeMap.getElem?_eq_some_getElem isOpen
        exact ⟨uri, _, opened, (names.contains_iff opened).mpr (Or.inl rfl)⟩
      · exact ⟨project, number, opened, (names.contains_iff opened).mpr (Or.inr isRoot)⟩
  eq_some_iff number := findProject?_eq_some_iff.trans names.isFirstOwner_iff
  named opened := names uri _ opened
  own_iff {number} opened := by
    rw [findProject?_eq_some_iff, names.isFirstOwner_iff]
    constructor
    · rintro ⟨project, isOwner, _, first⟩ other rival isRival less
      obtain rfl : project = uri := names.eq_of_number_eq isOwner opened
      exact (first other rival isRival less).2
    · intro unshadowed
      refine ⟨uri, opened, Or.inl rfl, fun other rival isRival less => ?_⟩
      exact ⟨ne_of_gt less, unshadowed other rival isRival less⟩

end NamesProjects

/-- No project is open at the start. -/
theorem namesProjects_initial (options : Options) : (initial options).NamesProjects := by
  intro project number opened
  simp [initial] at opened

/-- Whatever was opened, closed and updated, names are looked up in the order of the open
projects. -/
theorem findsProjects_run (options : Options) (n : Nat) (steps : List (Step n)) (uri : String) :
    (run options n steps).2.FindsProjects uri :=
  ((behaves_run options n steps).names (namesProjects_initial options)).findsProjects uri

/-- The steps that open a project with a root document, and a project that goes by the name of
that document. -/
def shadowingSteps : List (Step 0) :=
  [{ request := .openProject
      { project := "a", version := 1, roots := [{ uri := "b", contents := [] }] },
     plan := .succeeding none },
   { request := .openProject { project := "b", version := 1, roots := [] },
     plan := .succeeding none }]

/-- The second project is open, and the manager of the first one is found under its name. -/
theorem shadowed_sample :
    (run {} 0 shadowingSteps).2.catalog["b"]? = some 1 ∧
      (run {} 0 shadowingSteps).2.catalog["a"]? = some 0 ∧
      (run {} 0 shadowingSteps).2.HasRoot 0 "b" ∧
      (run {} 0 shadowingSteps).2.findProject? "b" = some 0 := by
  decide +kernel

end Proofline.Session
