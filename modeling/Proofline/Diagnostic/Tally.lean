import Proofline.Diagnostic.Report

/-!
# Tallies

A tally keeps diagnostics in the order in which they were accepted and answers
counting questions about them. It can be told to keep errors only.
-/

namespace Proofline

/-- Accepted diagnostics, oldest first. -/
structure Tally where
  options : Options := {}
  recorded : List Diagnostic := []
  errorsOnly : Bool := false
deriving Repr, Inhabited

namespace Tally

/-- Whether a diagnostic would be kept. -/
def admits (tally : Tally) (diagnostic : Diagnostic) : Bool :=
  !tally.errorsOnly || diagnostic.isError

/-- Keep a diagnostic that is admitted. The flag tells whether it was kept. -/
def accept (tally : Tally) (diagnostic : Diagnostic) : Tally × Bool :=
  if tally.admits diagnostic then
    ({ tally with recorded := tally.recorded ++ [diagnostic] }, true)
  else
    (tally, false)

theorem recorded_accept (tally : Tally) (diagnostic : Diagnostic) :
    (tally.accept diagnostic).1.recorded =
      tally.recorded ++ if tally.admits diagnostic then [diagnostic] else [] := by
  unfold accept
  split <;> simp_all

@[simp]
theorem snd_accept (tally : Tally) (diagnostic : Diagnostic) :
    (tally.accept diagnostic).2 = tally.admits diagnostic := by
  unfold accept
  split <;> simp_all

@[simp]
theorem options_accept (tally : Tally) (diagnostic : Diagnostic) :
    (tally.accept diagnostic).1.options = tally.options := by
  unfold accept
  split <;> rfl

@[simp]
theorem errorsOnly_accept (tally : Tally) (diagnostic : Diagnostic) :
    (tally.accept diagnostic).1.errorsOnly = tally.errorsOnly := by
  unfold accept
  split <;> rfl

@[simp]
theorem admits_accept (tally : Tally) (diagnostic other : Diagnostic) :
    (tally.accept diagnostic).1.admits other = tally.admits other := by
  rw [admits, admits, errorsOnly_accept]

/-- The number of diagnostics of a severity. -/
def count (tally : Tally) (severity : Severity) : Nat :=
  tally.recorded.countP fun diagnostic => diagnostic.severity = severity

/-- The number of diagnostics of a severity found before the late
subsystems. -/
def countEarly (tally : Tally) (severity : Severity) : Nat :=
  tally.recorded.countP fun diagnostic =>
    diagnostic.severity = severity && !diagnostic.subsystem.isLate

/-- Whether an error was accepted. -/
def hasErrors (tally : Tally) : Bool :=
  0 < tally.count .error

/-- Whether an error from before the late subsystems was accepted. -/
def hasEarlyErrors (tally : Tally) : Bool :=
  0 < tally.countEarly .error

theorem hasErrors_iff (tally : Tally) :
    tally.hasErrors = true ↔ ∃ diagnostic ∈ tally.recorded, diagnostic.isError = true := by
  rw [hasErrors, count, decide_eq_true_eq, List.countP_pos_iff]
  rfl

theorem hasEarlyErrors_iff (tally : Tally) :
    tally.hasEarlyErrors = true ↔
      ∃ diagnostic ∈ tally.recorded, diagnostic.isEarlyError = true := by
  rw [hasEarlyErrors, countEarly, decide_eq_true_eq, List.countP_pos_iff]
  rfl

end Tally

end Proofline
