import Proofline.Diagnostic.Tally
import Proofline.Table

/-!
# Journals

The journal of a project keeps every diagnostic twice: in one list in the
order of acceptance, and per document. A diagnostic without a document belongs
to the project itself. A diagnostic that equals one already filed under the
same document is refused. The list of a document is opened before it is known
whether anything gets into it, so lists may be empty; those are not shown.
-/

namespace Proofline

/-- Diagnostics by document. -/
abbrev DiagnosticsByUri := Table String (List Diagnostic)

/-- The diagnostics of one project. -/
structure Journal where
  project : String := ""
  tally : Tally := {}
  /-- The lists of all documents for which there was a diagnostic, even if
  none was recorded. -/
  lists : DiagnosticsByUri := ∅
deriving Inhabited

namespace Journal

/-- An empty journal. -/
def empty (options : Options) (project : String) : Journal where
  project
  tally := { options }

/-- The diagnostics filed under a document. -/
def filed (journal : Journal) (uri : String) : List Diagnostic :=
  journal.lists.getD uri []

/-- The recorded diagnostics by document. -/
def byUri (journal : Journal) : DiagnosticsByUri :=
  journal.lists.filter fun _ list => !list.isEmpty

/-- The journal with a list for a document. -/
def openList (journal : Journal) (uri : String) : Journal :=
  { journal with lists := journal.lists.insertIfNew uri [] }

/-- Record a diagnostic in both books unless it is a repetition or not
admitted. The flag tells whether it was recorded. -/
def accept (journal : Journal) (diagnostic : Diagnostic) : Journal × Bool :=
  let uri := diagnostic.filedUnder journal.project
  let opened := journal.openList uri
  if diagnostic ∈ opened.filed uri then
    (opened, false)
  else
    let (tally, kept) := opened.tally.accept diagnostic
    if kept then
      ({ opened with tally, lists := opened.lists.file uri diagnostic }, true)
    else
      (opened, false)

@[simp]
theorem filed_empty (options : Options) (project uri : String) :
    (empty options project).filed uri = [] := by
  simp [filed, empty]

/-- Opening a list files nothing. -/
@[simp]
theorem filed_openList (journal : Journal) (uri other : String) :
    (journal.openList uri).filed other = journal.filed other := by
  rw [filed, filed, openList, Std.ExtTreeMap.getD_insertIfNew]
  split
  · rename_i fresh
    obtain rfl : uri = other := by simpa using fresh.1
    rw [Std.ExtTreeMap.getD_eq_fallback fresh.2]
  · rfl

/-- What is shown of a document is what is filed under it, if that is anything. -/
theorem getElem?_byUri (journal : Journal) (uri : String) :
    journal.byUri[uri]? =
      if journal.filed uri = [] then none else some (journal.filed uri) := by
  rw [byUri, filed, Std.ExtTreeMap.getElem?_filter', Std.ExtTreeMap.getD_eq_getD_getElem?]
  cases journal.lists[uri]? with
  | none => rfl
  | some list => cases list <;> rfl

section Accepting

variable (journal : Journal) (diagnostic : Diagnostic)

/-- What is neither a repetition nor excluded is recorded. -/
theorem snd_accept :
    (journal.accept diagnostic).2 =
      (decide (diagnostic ∉ journal.filed (diagnostic.filedUnder journal.project)) &&
        journal.tally.admits diagnostic) := by
  have sameTally (uri : String) : (journal.openList uri).tally = journal.tally := rfl
  simp only [accept, filed_openList, sameTally, Tally.snd_accept]
  split
  · simp_all
  · split <;> simp_all

/-- A diagnostic is recorded in both books, or only a list is opened. -/
theorem fst_accept :
    (journal.accept diagnostic).1 =
      if (journal.accept diagnostic).2 then
        { journal with
          tally := (journal.tally.accept diagnostic).1
          lists := (journal.openList (diagnostic.filedUnder journal.project)).lists.file
            (diagnostic.filedUnder journal.project) diagnostic }
      else
        journal.openList (diagnostic.filedUnder journal.project) := by
  have sameTally (uri : String) : (journal.openList uri).tally = journal.tally := rfl
  simp only [accept, filed_openList, sameTally, Tally.snd_accept]
  split
  · rfl
  · split <;> rfl

@[simp]
theorem project_accept : (journal.accept diagnostic).1.project = journal.project := by
  rw [fst_accept]
  split <;> rfl

@[simp]
theorem options_accept :
    (journal.accept diagnostic).1.tally.options = journal.tally.options := by
  rw [fst_accept]
  split
  · exact journal.tally.options_accept diagnostic
  · rfl

@[simp]
theorem errorsOnly_accept :
    (journal.accept diagnostic).1.tally.errorsOnly = journal.tally.errorsOnly := by
  rw [fst_accept]
  split
  · exact journal.tally.errorsOnly_accept diagnostic
  · rfl

/-- What is recorded gets to the end of the list of all diagnostics. -/
theorem recorded_accept :
    (journal.accept diagnostic).1.tally.recorded =
      journal.tally.recorded ++ if (journal.accept diagnostic).2 then [diagnostic] else [] := by
  rw [fst_accept]
  split
  · rename_i kept
    rw [snd_accept, Bool.and_eq_true] at kept
    simp [Tally.recorded_accept, kept.2]
  · simp [openList]

/-- What is recorded gets to the end of the list of its document. -/
theorem filed_accept (uri : String) :
    (journal.accept diagnostic).1.filed uri =
      journal.filed uri ++
        if (journal.accept diagnostic).2 ∧ diagnostic.filedUnder journal.project = uri then
          [diagnostic]
        else
          [] := by
  have opened := journal.filed_openList (diagnostic.filedUnder journal.project)
  rw [fst_accept]
  by_cases kept : (journal.accept diagnostic).2 = true
  · rw [if_pos kept, filed]
    by_cases same : diagnostic.filedUnder journal.project = uri
    · subst same
      rw [Table.getD_file_self, if_pos ⟨kept, rfl⟩, ← opened, filed]
    · rw [Table.getD_file_of_ne _ same, if_neg (fun both => same both.2), ← opened, filed,
        List.append_nil]
  · rw [if_neg kept, if_neg (fun both => kept both.1), opened, List.append_nil]

end Accepting

/-- Record what a report asks for. -/
def report (journal : Journal) (report : Report) : Journal :=
  match report.diagnostic? journal.tally.options with
  | none => journal
  | some diagnostic => (journal.accept diagnostic).1

end Journal

end Proofline
