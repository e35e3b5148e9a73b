import Mathlib.Data.List.Induction
import Proofline.Session.Basic

/-!
# What journals tell

A journal records a report unless it has an equal diagnostic already or the options
silence it. Whether it has an error therefore depends on nothing but what was reported to
it, and so do the diagnostics of every document.
-/

namespace Proofline

namespace Report

/-- Whether a report is recorded as an error. -/
def isError (report : Report) (options : Options) : Bool :=
  (report.diagnostic? options).any Diagnostic.isError

/-- Whether a report is recorded as an error from before the late subsystems. -/
def isEarlyError (report : Report) (options : Options) : Bool :=
  (report.diagnostic? options).any Diagnostic.isEarlyError

end Report

namespace Journal

/-- The journal of a project after some reports. -/
def ofReports (options : Options) (project : String) (reports : List Report) : Journal :=
  reports.foldl report (.empty options project)

theorem ofReports_append_singleton (options : Options) (project : String)
    (reports : List Report) (given : Report) :
    ofReports options project (reports ++ [given]) =
      (ofReports options project reports).report given := by
  simp [ofReports]

/-- Whether a journal of a project tells some reports, each once, and nothing else. -/
structure Tells (options : Options) (project : String) (reports : List Report)
    (journal : Journal) : Prop where
  options_eq : journal.tally.options = options
  project_eq : journal.project = project
  all : journal.tally.errorsOnly = false
  recorded : ∀ diagnostic, diagnostic ∈ journal.tally.recorded ↔
    ∃ report ∈ reports, report.diagnostic? options = some diagnostic
  /-- What is refused because it was filed before is recorded. -/
  filed : ∀ diagnostic, diagnostic ∈ journal.filed (diagnostic.filedUnder project) →
    diagnostic ∈ journal.tally.recorded

namespace Tells

variable {options : Options} {project : String} {reports : List Report} {journal : Journal}

theorem accept (tells : journal.Tells options project reports) {given : Report}
    {diagnostic : Diagnostic} (isGiven : given.diagnostic? options = some diagnostic) :
    (journal.accept diagnostic).1.Tells options project (reports ++ [given]) := by
  have member (other : Diagnostic) :
      (∃ report ∈ reports ++ [given], report.diagnostic? options = some other) ↔
        other ∈ journal.tally.recorded ∨ other = diagnostic := by
    rw [tells.recorded]
    simp only [List.mem_append, List.mem_singleton, or_and_right, exists_or, exists_eq_left,
      isGiven, Option.some.injEq]
    exact or_congr_right eq_comm
  have known : (journal.accept diagnostic).2 = false → diagnostic ∈ journal.tally.recorded := by
    intro refused
    rw [Journal.snd_accept, tells.project_eq] at refused
    exact tells.filed diagnostic (by simpa [Tally.admits, tells.all] using refused)
  refine ⟨?_, ?_, ?_, fun other => ?_, fun other mem => ?_⟩
  · rw [Journal.options_accept, tells.options_eq]
  · rw [Journal.project_accept, tells.project_eq]
  · rw [Journal.errorsOnly_accept, tells.all]
  · rw [member, Journal.recorded_accept]
    cases kept : (journal.accept diagnostic).2 with
    | true => simp
    | false =>
        simp only [Bool.false_eq_true, if_false, List.append_nil]
        exact ⟨Or.inl, fun either => either.elim id fun same => same ▸ known kept⟩
  · rw [Journal.filed_accept] at mem
    rw [Journal.recorded_accept]
    rcases List.mem_append.mp mem with filed | new
    · exact List.mem_append_left _ (tells.filed other filed)
    · split at new
      · rename_i kept
        rw [if_pos kept.1]
        exact List.mem_append_right _ new
      · cases new

theorem report (tells : journal.Tells options project reports) (given : Report) :
    (journal.report given).Tells options project (reports ++ [given]) := by
  unfold Journal.report
  rw [tells.options_eq]
  cases isGiven : given.diagnostic? options with
  | some diagnostic => exact tells.accept isGiven
  | none =>
      refine ⟨tells.options_eq, tells.project_eq, tells.all, fun other => ?_, tells.filed⟩
      rw [tells.recorded]
      simp [or_and_right, exists_or, isGiven]

/-- A journal has an error exactly if one was reported. -/
theorem hasErrors_iff (tells : journal.Tells options project reports) :
    journal.tally.hasErrors = true ↔ ∃ report ∈ reports, report.isError options = true := by
  rw [Tally.hasErrors_iff]
  simp only [tells.recorded, Report.isError, Option.any_eq_true]
  grind

/-- A journal has an error from before the late subsystems exactly if one was reported. -/
theorem hasEarlyErrors_iff (tells : journal.Tells options project reports) :
    journal.tally.hasEarlyErrors = true ↔
      ∃ report ∈ reports, report.isEarlyError options = true := by
  rw [Tally.hasEarlyErrors_iff]
  simp only [tells.recorded, Report.isEarlyError, Option.any_eq_true]
  grind

end Tells

theorem tells_ofReports (options : Options) (project : String) (reports : List Report) :
    (ofReports options project reports).Tells options project reports := by
  induction reports using List.reverseRecOn with
  | nil => exact ⟨rfl, rfl, rfl, by simp [ofReports, empty], by simp [ofReports, empty, filed]⟩
  | append_singleton reports given ih =>
      rw [ofReports_append_singleton]
      exact ih.report given

@[simp]
theorem project_report (journal : Journal) (report : Report) :
    (journal.report report).project = journal.project := by
  unfold Journal.report
  split
  · rfl
  · exact journal.project_accept _

end Journal

/-- What is reported to a journal at an event, if anything is. -/
def Event.reportTo? (journal : Nat) : Event → Option Report
  | .reported number report => if number = journal then some report else none
  | _ => none

/-- What was reported to a journal according to a chronicle. -/
def reportsTo (journal : Nat) (entries : List ChronicleEntry) : List Report :=
  entries.filterMap fun entry => entry.event.reportTo? journal

theorem reportsTo_append (journal : Nat) (entries later : List ChronicleEntry) :
    reportsTo journal (entries ++ later) = reportsTo journal entries ++ reportsTo journal later :=
  List.filterMap_append

end Proofline
