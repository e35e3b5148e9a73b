import Proofline.Session.Basic

/-!
# The catalog of open projects

A project is open under its name and has one manager while it is. Managers are
numbered in the order in which they were created and stay usable by number
after their project is closed. A document belongs to the first open project,
in the order of names, that is or contains it.
-/

namespace Proofline.Session

/-- The session with the project of `compilation` open, and the number of its
manager. A project that is open already keeps its manager. -/
def openProject (session : Session) (compilation : Compilation) : Session × Nat :=
  match session.catalog[compilation.project]? with
  | some number => (session, number)
  | none =>
      let number := session.managers.size
      ({ session with
          managers := session.managers.insert number (.initial compilation)
          catalog := session.catalog.insert compilation.project number }.enter
            [.opened number compilation],
        number)

/-- The number of the manager of the first open project to which a document
belongs. -/
def findProject? (session : Session) (uri : String) : Option Nat :=
  (session.catalog.toList.find? fun entry => (session.manager entry.2).contains uri).map Prod.snd

/-- The session with a project closed. -/
def closeProject (session : Session) (project : String) : Session :=
  { session with catalog := session.catalog.erase project }

end Proofline.Session
