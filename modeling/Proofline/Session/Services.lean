import Proofline.Session.Basic

/-!
# Services

The work a session does not do itself: parsing, resolution, the tables built
from a resolved program, checks on ghost code, and verification. A service is
an action on the session, so it may run further steps before it returns; it
may also fail.
-/

namespace Proofline

/-- The services of a session. -/
structure Services where
  /-- Parse the root documents, reporting to the journal with the given
  number. -/
  parse : Compilation → Nat → SessionM (Option Declaration)
  /-- Resolve the names of a project, reporting to the journal of its
  program. -/
  resolve : String → Program → SessionM (List ResolvedSymbol)
  /-- The signatures of resolved symbols. -/
  signatures : List ResolvedSymbol → SessionM SignatureTable
  /-- The declarations of a program. -/
  symbols : Program → Compilation → SessionM SymbolTable
  /-- The diagnostics about misuse of ghost code. -/
  ghosts : SignatureTable → SessionM (List Diagnostic)
  /-- Verify one unit. -/
  verify : Declaration → SessionM Outcome

end Proofline
