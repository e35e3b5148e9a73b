import Proofline.Proofs.EnclosingModule
import Proofline.Proofs.ShownDiagnostics

/-!
# The gate before the collection of units

Units are collected unless the journal of a version has an error from before the late
subsystems. The misuse of ghost code is looked for earlier, and what is found is shown with the
version, but it goes to no journal and keeps no units from being collected.
-/

namespace Proofline

/-- Whether a table lists an error from before the late subsystems. -/
def DiagnosticsByUri.HasEarlyError (table : DiagnosticsByUri) : Prop :=
  ∃ (uri : String) (list : List Diagnostic), table[uri]? = some list ∧
    ∃ diagnostic ∈ list, diagnostic.isEarlyError = true

/-- Whether an error from before the late subsystems is among the diagnostics about ghost
code. -/
def Resolved.HasGhostError (resolved : Resolved) : Prop :=
  ∃ diagnostic ∈ resolved.ghostDiagnostics, diagnostic.isEarlyError = true

/-- Whether a declaration of a version is eligible for verification. -/
def Resolved.Offers (resolved : Resolved) (unit : Declaration) : Prop :=
  ∃ program, resolved.parsed.program.module = some program ∧
    Declaration.IsEligible resolved.compilation program unit

/-- How the units of a version depend on the errors that are shown of it. Early errors are those
from before the late subsystems. -/
structure Resolved.GatesUnits (resolved : Resolved) : Prop where
  /-- The early errors that are shown are those of parsing and resolution and those about ghost
  code. -/
  shown : (Snapshot.resolved resolved).diagnostics.HasEarlyError ↔
    resolved.diagnostics.HasEarlyError ∨ resolved.HasGhostError
  /-- An early error of parsing or resolution keeps all units from being collected. -/
  gated : resolved.diagnostics.HasEarlyError → resolved.units = []
  /-- Otherwise the units are the eligible declarations, whatever is found about ghost code. -/
  collected : ¬resolved.diagnostics.HasEarlyError →
    ∀ unit, unit ∈ resolved.units ↔ resolved.Offers unit
  /-- Units are there along with an early error exactly if the error is one about ghost code and
  nothing else keeps them from being collected. -/
  ungated : (Snapshot.resolved resolved).diagnostics.HasEarlyError ∧ resolved.units ≠ [] ↔
    ¬resolved.diagnostics.HasEarlyError ∧ resolved.HasGhostError ∧ ∃ unit, resolved.Offers unit

namespace DiagnosticsByUri

variable {table : DiagnosticsByUri} {list : String → List Diagnostic}

theorem Lists.hasEarlyError_iff (lists : table.Lists list) :
    table.HasEarlyError ↔ ∃ uri, ∃ diagnostic ∈ list uri, diagnostic.isEarlyError = true := by
  constructor
  · rintro ⟨uri, shown, isShown, early⟩
    rw [lists uri] at isShown
    split at isShown
    · cases isShown
    · exact ⟨uri, Option.some.inj isShown ▸ early⟩
  · rintro ⟨uri, diagnostic, mem, early⟩
    exact ⟨uri, list uri, by rw [lists uri, if_neg (List.ne_nil_of_mem mem)], diagnostic, mem,
      early⟩

end DiagnosticsByUri

theorem Snapshot.Shows.hasEarlyError_iff {snapshot : Snapshot}
    {list : String → List Diagnostic} (shows : snapshot.Shows list) :
    snapshot.diagnostics.HasEarlyError ↔
      ∃ uri, ∃ diagnostic ∈ list uri, diagnostic.isEarlyError = true := by
  constructor
  · rintro ⟨uri, shown, isShown, early⟩
    rw [shows uri] at isShown
    split at isShown
    · cases isShown
    · exact ⟨uri, Option.some.inj isShown ▸ early⟩
  · rintro ⟨uri, diagnostic, mem, early⟩
    refine ⟨uri, list uri, ?_, diagnostic, mem, early⟩
    rw [shows uri, if_neg fun nothing => List.ne_nil_of_mem mem nothing.1]

/-- A journal shows an early error exactly if it counted one. -/
theorem Journal.Agrees.hasEarlyError_iff {journal : Journal} (agrees : journal.Agrees) :
    journal.byUri.HasEarlyError ↔ journal.tally.hasEarlyErrors = true := by
  rw [journal.lists_byUri.hasEarlyError_iff, Tally.hasEarlyErrors_iff]
  constructor
  · rintro ⟨uri, diagnostic, mem, early⟩
    rw [agrees.filed_eq, List.mem_filter] at mem
    exact ⟨diagnostic, mem.1, early⟩
  · rintro ⟨diagnostic, mem, early⟩
    exact ⟨_, diagnostic, (agrees.mem_filed diagnostic).mpr mem, early⟩

/-- Also a journal that was never opened agrees, being empty. -/
theorem Session.KeepsJournals.agrees_journal {session : Session} (keeps : session.KeepsJournals)
    (number : Nat) : (session.journal number).Agrees := by
  cases found : session.journals[number]? with
  | some journal =>
      have opened : session.HasJournal number journal.project := by simp [HasJournal, found]
      exact keeps.agrees opened
  | none =>
      rw [journal, List.getD_eq_getElem?_getD, found]
      exact Journal.agrees_empty {} ""

namespace Resolved

variable {resolved : Resolved}

/-- Early errors are shown of a version where it lists any or they are about ghost code. -/
theorem hasEarlyError_shown_iff {list : String → List Diagnostic}
    (lists : resolved.diagnostics.Lists list) :
    (Snapshot.resolved resolved).diagnostics.HasEarlyError ↔
      resolved.diagnostics.HasEarlyError ∨ resolved.HasGhostError := by
  have shows := Snapshot.shows_of_lists (.resolved resolved)
    (lists_shownDiagnostics lists)
  rw [shows.hasEarlyError_iff, lists.hasEarlyError_iff, HasGhostError]
  simp only [List.mem_append, Diagnostic.filedAmong, List.mem_filter, decide_eq_true_eq,
    or_and_right, exists_or]
  refine or_congr_right ⟨?_, ?_⟩
  · rintro ⟨_, diagnostic, ⟨mem, _⟩, early⟩
    exact ⟨diagnostic, mem, early⟩
  · rintro ⟨diagnostic, mem, early⟩
    exact ⟨_, diagnostic, ⟨mem, rfl⟩, early⟩

/-- When units are kept from being collected by what a version lists, and by nothing else, errors
about ghost code do not keep them. -/
theorem gatesUnits_of_collected
    (shown : (Snapshot.resolved resolved).diagnostics.HasEarlyError ↔
      resolved.diagnostics.HasEarlyError ∨ resolved.HasGhostError)
    (gated : resolved.diagnostics.HasEarlyError → resolved.units = [])
    (collected : ¬resolved.diagnostics.HasEarlyError →
      ∀ unit, unit ∈ resolved.units ↔ resolved.Offers unit) :
    resolved.GatesUnits := by
  refine ⟨shown, gated, collected, ?_⟩
  rw [shown]
  constructor
  · rintro ⟨either, some_left⟩
    have noEarly : ¬resolved.diagnostics.HasEarlyError := some_left ∘ gated
    obtain ⟨unit, mem⟩ := List.exists_mem_of_ne_nil _ some_left
    exact ⟨noEarly, either.resolve_left noEarly, unit, (collected noEarly unit).mp mem⟩
  · rintro ⟨noEarly, ghostly, unit, offered⟩
    exact ⟨Or.inr ghostly, List.ne_nil_of_mem ((collected noEarly unit).mpr offered)⟩

end Resolved

namespace SessionM

variable {α β : Type} {session after : Session}

/-- What comes of two actions comes of the second one, run after the first. -/
theorem exists_of_run_bind {action : SessionM α} {next : α → SessionM β} {value : β}
    (ran : (action >>= next).run session = (.ok value, after)) :
    ∃ first middle, action.run session = (.ok first, middle) ∧
      (next first).run middle = (.ok value, after) := by
  rw [run_bind] at ran
  split at ran
  · rename_i first middle isFirst
    exact ⟨first, middle, isFirst, ran⟩
  · cases ran

/-- The units of a version that is resolved are those that its journal allows to be
collected. -/
theorem units_of_finishResolution {parsed : Parsed} {migrated : ProgressTrees}
    {signatures : SignatureTable} {symbols : SymbolTable} {ghosts : List Diagnostic}
    {resolved : Resolved}
    (ran : (finishResolution parsed migrated signatures symbols ghosts).run session =
      (.ok (.ok resolved), after)) :
    (after.journal parsed.program.journal).tally.hasEarlyErrors = true ∧ resolved.units = [] ∨
      (after.journal parsed.program.journal).tally.hasEarlyErrors = false ∧
        Declaration.collectUnits? parsed.program.module parsed.compilation false =
          some resolved.units := by
  rw [finishResolution] at ran
  obtain ⟨collected, _, collects, ran⟩ := exists_of_run_bind ran
  rw [run_collectUnits] at collects
  cases collects
  split at ran
  · cases ran
  rename_i units allowed
  obtain ⟨canceled, _, ⟨⟩, ran⟩ := exists_of_run_bind ran
  split at ran
  · cases ran
  obtain ⟨journal, _, ⟨⟩, ran⟩ := exists_of_run_bind ran
  obtain ⟨_, _, logs, ran⟩ := exists_of_run_bind ran
  rw [run_log] at logs
  cases logs
  cases ran
  unfold allowedUnits? at allowed
  split at allowed
  · rename_i early
    exact Or.inl ⟨early, (Option.some.inj allowed).symm⟩
  · rename_i clean
    exact Or.inr ⟨Bool.eq_false_iff.mpr clean, Declaration.collectUnits?_of_eq_some allowed⟩

/-- However the services of a version that is resolved behave, its units are those that its
journal allows to be collected in the end. -/
theorem units_of_resolve {services : Services} {parsed : Parsed} {migrated : ProgressTrees}
    {resolved : Resolved}
    (ran : (resolve services parsed migrated).run session = (.ok (.ok resolved), after)) :
    (after.journal parsed.program.journal).tally.hasEarlyErrors = true ∧ resolved.units = [] ∨
      (after.journal parsed.program.journal).tally.hasEarlyErrors = false ∧
        Declaration.collectUnits? parsed.program.module parsed.compilation false =
          some resolved.units := by
  rw [resolve] at ran
  obtain ⟨canceled, _, ⟨⟩, ran⟩ := exists_of_run_bind ran
  split at ran
  · cases ran
  obtain ⟨journal, _, ⟨⟩, ran⟩ := exists_of_run_bind ran
  split at ran
  · obtain ⟨_, _, _, ran⟩ := exists_of_run_bind ran
    cases ran
  obtain ⟨_, _, _, ran⟩ := exists_of_run_bind ran
  obtain ⟨symbols, _, _, ran⟩ := exists_of_run_bind ran
  obtain ⟨_, _, _, ran⟩ := exists_of_run_bind ran
  obtain ⟨signatures, _, _, ran⟩ := exists_of_run_bind ran
  obtain ⟨table, _, _, ran⟩ := exists_of_run_bind ran
  obtain ⟨_, _, _, ran⟩ := exists_of_run_bind ran
  obtain ⟨ghosts, _, _, ran⟩ := exists_of_run_bind ran
  exact units_of_finishResolution ran

end SessionM

namespace Session.Arises

variable {session after : Session}

/-- However the services behave, units are kept from being collected by early errors of parsing
and resolution, and by nothing else. -/
theorem gatesUnits (arises : session.Arises) {n : Nat} (plan : Plan (Step n)) {parsed : Parsed}
    {migrated : ProgressTrees} {resolved : Resolved}
    (ran : (SessionM.resolve (plan.services (Step.perform n)) parsed migrated).run session =
      (.ok (.ok resolved), after)) :
    resolved.GatesUnits := by
  have meets := SessionM.meets_resolve (isDiscipline_behaves none)
    (SessionM.respect_services (isDiscipline_behaves none) (Step.behaves_perform n) plan)
    0 _ parsed migrated session arises.occurs.isReachable.wellNumbered rfl
  rw [ran] at meets
  obtain ⟨rfl, _, matchesJournal⟩ := meets.2 (.ok resolved) rfl resolved rfl
  have agrees := (arises.of_behaves meets.1).keepsJournals.agrees_journal
    resolved.parsed.program.journal
  have early : resolved.diagnostics.HasEarlyError ↔ _ :=
    matchesJournal.diagnostics ▸ agrees.hasEarlyError_iff
  have lists : resolved.diagnostics.Lists _ :=
    matchesJournal.diagnostics ▸ Journal.lists_byUri _
  apply Resolved.gatesUnits_of_collected (Resolved.hasEarlyError_shown_iff lists)
  · intro hasEarly
    rcases SessionM.units_of_resolve ran with ⟨_, noUnits⟩ | ⟨clean, _⟩
    · exact noUnits
    · exact absurd (early.mp hasEarly) (Bool.eq_false_iff.mp clean)
  · intro noEarly unit
    rcases SessionM.units_of_resolve ran with ⟨counted, _⟩ | ⟨_, collected⟩
    · exact absurd (early.mpr counted) noEarly
    · exact Declaration.mem_iff_of_collectUnits? collected unit

end Session.Arises

/-- A plan for the sample project with one method, in which the resolver makes some reports and
ghost code is found to be misused. -/
def Plan.sampleMisuse (reports : List Report) (misuse : List Diagnostic) : Plan (Step 0) :=
  { Plan.succeeding (some (.sampleModule 1)) with
    resolve := { reports, reply := [] }
    ghosts := { reply := misuse } }

namespace Session

/-- The session in which the sample project was parsed, and what came of it. -/
def sampleParsed? : Option (Parsed × Session) :=
  (SessionM.parse ((Plan.sampleMisuse [] []).services (Step.perform 0)) .sample ∅).completed?
    (initial {})

theorem arises_of_sampleParsed? {parsed : Parsed} {session : Session}
    (parses : sampleParsed? = some (parsed, session)) : session.Arises := by
  have respect := SessionM.respect_services (isDiscipline_behaves none)
    (Step.behaves_perform 0) (.sampleMisuse [] [])
  have arises := (obtains_initial {}).arises
  have behaves := (SessionM.respects_parse (isDiscipline_behaves none) respect .sample ∅
    (initial {}) arises.occurs.isReachable.wellNumbered trivial).1
  rw [SessionM.completed?_eq_some_iff.mp parses] at behaves
  exact arises.of_behaves behaves

/-- When the resolver reports an error, the method is not collected. -/
theorem gatesUnits_sample :
    ∃ (parsed : Parsed) (session after : Session) (resolved : Resolved),
      sampleParsed? = some (parsed, session) ∧
      (SessionM.resolve ((Plan.sampleMisuse [.error .resolver none {} "e"] []).services
        (Step.perform 0)) parsed ∅).run session = (.ok (.ok resolved), after) ∧
      resolved.GatesUnits ∧ resolved.diagnostics.HasEarlyError ∧ resolved.units = [] := by
  have resolves : (sampleParsed?.bind fun (parsed, session) =>
      ((SessionM.resolve ((Plan.sampleMisuse [.error .resolver none {} "e"] []).services
        (Step.perform 0)) parsed ∅).completed? session).map fun (resolved, _) =>
          resolved.diagnostics["p"]?.map fun list => list.map Diagnostic.isEarlyError) =
      some (some [true]) := by
    decide +kernel
  obtain ⟨⟨parsed, session⟩, parses, resolves⟩ := Option.bind_eq_some_iff.mp resolves
  obtain ⟨⟨resolved, after⟩, resolves, listed⟩ := Option.map_eq_some_iff.mp resolves
  obtain ⟨list, found, early⟩ := Option.map_eq_some_iff.mp listed
  rw [SessionM.completed?_eq_some_iff] at resolves
  have gates := (arises_of_sampleParsed? parses).gatesUnits _ resolves
  have isEarly : ∃ diagnostic ∈ list, diagnostic.isEarlyError = true :=
    List.mem_map.mp (early ▸ List.mem_singleton_self true)
  have hasEarly : resolved.diagnostics.HasEarlyError := ⟨"p", list, found, isEarly⟩
  exact ⟨parsed, session, after, resolved, parses, resolves, gates, hasEarly,
    gates.gated hasEarly⟩

/-- When ghost code is misused instead, the error is shown and the method is collected. -/
theorem ungated_sample :
    let misuse : Diagnostic :=
      { subsystem := .resolver, severity := .error, location := { outer := { uri := "a" } },
        message := "g" }
    ∃ (parsed : Parsed) (session after : Session) (resolved : Resolved),
      sampleParsed? = some (parsed, session) ∧
      (SessionM.resolve ((Plan.sampleMisuse [] [misuse]).services (Step.perform 0)) parsed ∅).run
        session = (.ok (.ok resolved), after) ∧
      misuse.isEarlyError = true ∧ resolved.ghostDiagnostics = [misuse] ∧
      (Snapshot.resolved resolved).diagnostics.toList = [("a", [misuse])] ∧
      resolved.units.map Declaration.key = [Declaration.sampleMethod.key] := by
  intro misuse
  have resolves : (sampleParsed?.bind fun (parsed, session) =>
      ((SessionM.resolve ((Plan.sampleMisuse [] [misuse]).services (Step.perform 0)) parsed
        ∅).completed? session).map fun (resolved, _) =>
          (resolved.ghostDiagnostics, (Snapshot.resolved resolved).diagnostics.toList,
            resolved.units.map Declaration.key)) =
      some ([misuse], [("a", [misuse])], [Declaration.sampleMethod.key]) := by
    decide +kernel
  obtain ⟨⟨parsed, session⟩, parses, resolves⟩ := Option.bind_eq_some_iff.mp resolves
  obtain ⟨⟨resolved, after⟩, resolves, facts⟩ := Option.map_eq_some_iff.mp resolves
  rw [SessionM.completed?_eq_some_iff] at resolves
  obtain ⟨ghosts, facts⟩ := Prod.mk.inj facts
  obtain ⟨shown, units⟩ := Prod.mk.inj facts
  exact ⟨parsed, session, after, resolved, parses, resolves, rfl, ghosts, shown, units⟩

end Session

end Proofline
