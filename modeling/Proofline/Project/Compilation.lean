import Proofline.Text.Document

/-!
# Compilations

A compilation is one version of the root documents of a project. When two root
documents have the same name, the first one counts.
-/

namespace Proofline

/-- One version of a project. -/
structure Compilation where
  /-- The name of the project. -/
  project : String := ""
  version : Int := 0
  /-- The root documents, in order. -/
  roots : List Document := []
deriving DecidableEq, Repr, Inhabited

namespace Compilation

/-- The names of the root documents, in order and with repetitions. -/
def rootUris (compilation : Compilation) : List String :=
  compilation.roots.map Document.uri

/-- The root document of the given name. -/
def findRoot? (compilation : Compilation) (uri : String) : Option Document :=
  compilation.roots.find? fun document => document.uri = uri

/-- Whether some root document has the given name. -/
def isRoot (compilation : Compilation) (uri : String) : Bool :=
  (compilation.findRoot? uri).isSome

theorem isRoot_iff (compilation : Compilation) (uri : String) :
    compilation.isRoot uri = true ↔ uri ∈ compilation.rootUris := by
  simp [isRoot, findRoot?, rootUris]

end Compilation

end Proofline
