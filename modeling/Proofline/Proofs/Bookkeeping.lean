import Proofline.Diagnostic.Network
import Proofline.Proofs.Managers
import Proofline.Proofs.ScriptedVerifier

/-!
# The two books of a journal

A journal lists its diagnostics in the order of acceptance and files them per document. Both
books tell the same: under a document stands what the list has for it, in the same order.
A repetition is looked for under one document only, but no diagnostic stands in the list twice,
for equal ones are filed under the same document. Whether there are errors can be read off
either book.
-/

namespace Proofline

namespace Journal

/-- Whether the two books of a journal agree. -/
structure Agrees (journal : Journal) : Prop where
  filed_eq : ∀ uri, journal.filed uri =
    journal.tally.recorded.filter fun diagnostic => diagnostic.filedUnder journal.project = uri
  nodup : journal.tally.recorded.Nodup

theorem agrees_empty (options : Options) (project : String) :
    (empty options project).Agrees where
  filed_eq uri := filed_empty options project uri
  nodup := List.nodup_nil

namespace Agrees

variable {journal : Journal}

/-- What is filed under its own document is all that is recorded. -/
theorem mem_filed (agrees : journal.Agrees) (diagnostic : Diagnostic) :
    diagnostic ∈ journal.filed (diagnostic.filedUnder journal.project) ↔
      diagnostic ∈ journal.tally.recorded := by
  simp [agrees.filed_eq]

/-- A diagnostic is recorded exactly if no equal one was, unless it is filtered out. -/
theorem snd_accept_iff (agrees : journal.Agrees) (diagnostic : Diagnostic) :
    (journal.accept diagnostic).2 = true ↔ diagnostic ∉ journal.tally.recorded ∧
      (journal.tally.errorsOnly = true → diagnostic.isError = true) := by
  rw [Journal.snd_accept, Bool.and_eq_true, decide_eq_true_eq, agrees.mem_filed]
  cases filters : journal.tally.errorsOnly <;> simp [Tally.admits, filters]

theorem accept (agrees : journal.Agrees) (diagnostic : Diagnostic) :
    (journal.accept diagnostic).1.Agrees where
  filed_eq uri := by
    rw [filed_accept, agrees.filed_eq, project_accept, recorded_accept, List.filter_append]
    cases kept : (journal.accept diagnostic).2 with
    | false => simp
    | true =>
        by_cases same : diagnostic.filedUnder journal.project = uri
        · simp [same]
        · simp [same]
  nodup := by
    rw [recorded_accept]
    cases kept : (journal.accept diagnostic).2 with
    | false => simpa using agrees.nodup
    | true =>
        have new := ((agrees.snd_accept_iff diagnostic).mp kept).1
        simpa [List.nodup_append, agrees.nodup] using fun other mem => ne_of_mem_of_not_mem mem new

theorem report (agrees : journal.Agrees) (given : Report) : (journal.report given).Agrees := by
  unfold Journal.report
  split
  · exact agrees
  · exact agrees.accept _

/-- What is shown under a document. -/
theorem getElem?_byUri_iff (agrees : journal.Agrees) {uri : String} {list : List Diagnostic} :
    journal.byUri[uri]? = some list ↔ list ≠ [] ∧ list =
      journal.tally.recorded.filter fun diagnostic =>
        diagnostic.filedUnder journal.project = uri := by
  rw [getElem?_byUri, agrees.filed_eq]
  split
  · rename_i nothing
    rw [nothing]
    simp
  · rename_i something
    rw [Option.some.injEq]
    exact ⟨fun same => ⟨same ▸ something, same.symm⟩, fun both => both.2.symm⟩

/-- A document is shown exactly if a recorded diagnostic is filed under it. -/
theorem mem_byUri_iff (agrees : journal.Agrees) {uri : String} :
    uri ∈ journal.byUri ↔ ∃ diagnostic ∈ journal.tally.recorded,
      diagnostic.filedUnder journal.project = uri := by
  rw [← Std.ExtTreeMap.isSome_getElem?_iff_mem, getElem?_byUri, agrees.filed_eq]
  simp

/-- A copy of what is shown has an error exactly if one was counted. -/
theorem hasErrors_eq (agrees : journal.Agrees) {parsed : Parsed}
    (copied : parsed.diagnostics = journal.byUri) :
    parsed.hasErrors = journal.tally.hasErrors := by
  rw [Bool.eq_iff_iff, Tally.hasErrors_iff]
  simp only [Parsed.hasErrors, copied, List.any_eq_true, Prod.exists,
    Std.ExtTreeMap.mem_toList_iff_getElem?_eq_some, agrees.getElem?_byUri_iff]
  constructor
  · rintro ⟨uri, _, ⟨_, rfl⟩, diagnostic, mem, isError⟩
    exact ⟨diagnostic, (List.mem_filter.mp mem).1, isError⟩
  · rintro ⟨diagnostic, mem, isError⟩
    have listed : diagnostic ∈ journal.tally.recorded.filter fun other =>
        other.filedUnder journal.project = diagnostic.filedUnder journal.project := by
      simp [mem]
    exact ⟨_, _, ⟨List.ne_nil_of_mem listed, rfl⟩, diagnostic, listed, isError⟩

end Agrees

/-- What is not recorded does not show. -/
theorem byUri_accept_of_not_kept {journal : Journal} {diagnostic : Diagnostic}
    (refused : (journal.accept diagnostic).2 = false) :
    (journal.accept diagnostic).1.byUri = journal.byUri := by
  refine Std.ExtTreeMap.ext_getElem? fun uri => ?_
  rw [getElem?_byUri, getElem?_byUri, filed_accept]
  simp [refused]

theorem agrees_ofReports (options : Options) (project : String) (reports : List Report) :
    (ofReports options project reports).Agrees := by
  induction reports using List.reverseRecOn with
  | nil => exact agrees_empty options project
  | append_singleton reports given ih =>
      rw [ofReports_append_singleton]
      exact ih.report given

end Journal

/-- The journals of a session agree. -/
theorem Session.KeepsJournals.agrees {session : Session} (keeps : session.KeepsJournals)
    {number : Nat} {project : String} (opened : session.HasJournal number project) :
    (session.journal number).Agrees := by
  rw [keeps.journal_eq opened]
  exact Journal.agrees_ofReports ..

theorem Session.Arises.keepsJournals {session : Session} (arises : session.Arises) :
    session.KeepsJournals := by
  rcases arises with ⟨options, _, records⟩
  exact records.keepsJournals (keepsJournals_initial options)

/-- At the time of the copy, a parsed version has an error exactly if its journal has one. -/
theorem Session.Arises.hasErrors_parse {session after : Session} (arises : session.Arises)
    {n : Nat} (plan : Plan (Step n)) {compilation : Compilation} {migrated : ProgressTrees}
    {parsed : Parsed}
    (ran : (SessionM.parse (plan.services (Step.perform n)) compilation migrated).run session =
      (.ok (.ok parsed), after)) :
    parsed.hasErrors = (after.journal parsed.program.journal).tally.hasErrors := by
  have respect := SessionM.respect_services (isDiscipline_behaves none)
    (Step.behaves_perform n) plan
  have parsing := SessionM.meets_parse (isDiscipline_behaves none) respect compilation migrated
    session arises.occurs.isReachable.wellNumbered trivial
  rw [ran] at parsing
  have holds := (parsing.2 (.ok parsed) rfl parsed rfl).2.2
  exact ((arises.of_behaves parsing.1).keepsJournals.agrees holds.opened).hasErrors_eq
    holds.diagnostics

namespace Network

/-- Whether the journals among some reporters agree. -/
def JournalsAgree (reporters : List Reporter) : Prop :=
  ∀ journal, .project journal ∈ reporters → journal.Agrees

namespace JournalsAgree

variable {reporters : List Reporter}

theorem of_getElem? (agree : JournalsAgree reporters) {index : Nat} {journal : Journal}
    (found : reporters[index]? = some (.project journal)) : journal.Agrees :=
  agree journal (List.mem_of_getElem? found)

theorem set (agree : JournalsAgree reporters) (index : Nat) {reporter : Reporter}
    (agrees : ∀ journal, reporter = .project journal → journal.Agrees) :
    JournalsAgree (reporters.set index reporter) := by
  intro journal mem
  rcases List.mem_or_eq_of_mem_set mem with old | same
  · exact agree journal old
  · exact agrees journal same.symm

/-- Whatever a diagnostic passes on its way, journals agree when it has come to rest. -/
theorem accept (agree : JournalsAgree reporters) (texts : HelpTexts) (index : Nat)
    (diagnostic : Diagnostic) :
    JournalsAgree (Network.accept texts reporters index diagnostic).1 := by
  -- A labelling reporter hands on to one with a smaller number, with another message.
  induction index using Nat.strongRecOn generalizing reporters diagnostic with
  | ind index ih =>
      rw [Network.accept]
      cases found : reporters[index]? with
      | none => exact agree
      | some reporter =>
          cases reporter with
          | counting | silent => exact agree.set index (by simp [Reporter.accept])
          | console tally sources written =>
              refine agree.set index fun journal isJournal => ?_
              unfold Reporter.accept at isJournal
              dsimp only at isJournal
              split at isJournal <;> cases isJournal
          | project journal =>
              refine agree.set index fun after isAfter => ?_
              obtain rfl : (journal.accept diagnostic).1 = after :=
                Reporter.project.inj isAfter
              exact (agree.of_getElem? found).accept diagnostic
          | labelling tally wrapped label =>
              dsimp only
              split
              · rename_i smaller
                exact ih wrapped smaller (agree.set index (by simp [Reporter.accept])) _
              · exact agree

theorem report {network : Network} (agree : JournalsAgree network.reporters) (index : Nat)
    (given : Report) : JournalsAgree (network.report index given).1.reporters := by
  unfold Network.report
  split
  · exact agree
  · split
    · exact agree
    · exact agree.accept network.texts index _

/-- Whatever is asked of a reporter, journals agree afterwards. -/
theorem request? {network after : Network} (agree : JournalsAgree network.reporters)
    {index : Nat} {request : ReporterRequest} {reply : ReporterReply}
    (served : network.request? index request = some (after, reply)) :
    JournalsAgree after.reporters := by
  unfold Network.request? at served
  split at served <;> cases served
  · exact agree.report index _
  · exact agree.set index (by simp)
  · rename_i journal errorsOnly found
    refine agree.set index ?_
    rintro _ ⟨⟩
    have agrees := agree.of_getElem? found
    exact ⟨agrees.filed_eq, agrees.nodup⟩
  · exact agree.set index (by simp)
  all_goals exact agree

end JournalsAgree

/-- Serve requests to the reporters with the given numbers, one after the other. What is not
served changes nothing. -/
def serveAll (network : Network) : List (Nat × ReporterRequest) → Network
  | [] => network
  | (index, request) :: rest =>
      match network.request? index request with
      | none => network.serveAll rest
      | some (after, _) => after.serveAll rest

theorem JournalsAgree.serveAll {network : Network} (agree : JournalsAgree network.reporters)
    (requests : List (Nat × ReporterRequest)) :
    JournalsAgree (network.serveAll requests).reporters := by
  induction requests generalizing network with
  | nil => exact agree
  | cons request rest ih =>
      rw [Network.serveAll]
      split
      · exact ih agree
      · rename_i served
        exact ih (agree.request? served)

/-- Whether the journals of a network are as they were opened. -/
def HasFreshJournals (network : Network) : Prop :=
  ∀ journal, .project journal ∈ network.reporters →
    ∃ options project, journal = .empty options project

theorem HasFreshJournals.agree {network : Network} (fresh : network.HasFreshJournals) :
    JournalsAgree network.reporters := by
  intro journal mem
  obtain ⟨options, project, rfl⟩ := fresh journal mem
  exact Journal.agrees_empty options project

/-- How a journal with a number in a network keeps its two books. -/
structure KeepsBooks (network : Network) (index : Nat) (journal : Journal) : Prop where
  /-- A document is shown exactly if a recorded diagnostic is filed under it. -/
  mem_byUri_iff : ∀ uri, uri ∈ journal.byUri ↔ ∃ diagnostic ∈ journal.tally.recorded,
    diagnostic.filedUnder journal.project = uri
  /-- Under a document stand the recorded diagnostics that are filed there, in their order. -/
  byUri_eq : ∀ {uri list}, journal.byUri[uri]? = some list →
    list = journal.tally.recorded.filter fun diagnostic =>
      diagnostic.filedUnder journal.project = uri
  /-- No two recorded diagnostics are equal. -/
  nodup : journal.tally.recorded.Nodup
  /-- A diagnostic is appended, or nothing changes in either book. The answer tells which, and a
  diagnostic is refused only as a repetition or because errors alone are kept. -/
  answers : ∀ {given : Report} {diagnostic : Diagnostic},
    given.diagnostic? journal.tally.options = some diagnostic → ∃ after kept,
      network.request? index (.report given) =
        some (network.replace index (.project after),
          if given.isAnswered then .flag kept else .nothing) ∧
      (kept = true ↔ diagnostic ∉ journal.tally.recorded ∧
        (journal.tally.errorsOnly = true → diagnostic.isError = true)) ∧
      after.tally.recorded =
        journal.tally.recorded ++ (if kept then [diagnostic] else []) ∧
      (kept = false → after.byUri = journal.byUri)
  /-- A copy of what is shown has an error exactly if the journal has. -/
  hasErrors_eq : ∀ {parsed : Parsed}, parsed.diagnostics = journal.byUri →
    parsed.hasErrors = journal.tally.hasErrors

/-- A report to a journal is accepted by it or refused. -/
theorem request?_report_of_journal {network : Network} {index : Nat} {journal : Journal}
    (found : network.reporters[index]? = some (.project journal)) {given : Report}
    {diagnostic : Diagnostic}
    (isGiven : given.diagnostic? journal.tally.options = some diagnostic) :
    network.request? index (.report given) =
      some (network.replace index (.project (journal.accept diagnostic).1),
        if given.isAnswered then .flag (journal.accept diagnostic).2 else .nothing) := by
  have reported : network.report index given =
      (network.replace index (.project (journal.accept diagnostic).1),
        (journal.accept diagnostic).2) := by
    simp only [Network.report, found, Reporter.options, isGiven, Network.accept, Reporter.accept,
      Network.replace]
  simp only [Network.request?, found, reported]

theorem keepsBooks_of_agrees {network : Network} {index : Nat} {journal : Journal}
    (found : network.reporters[index]? = some (.project journal)) (agrees : journal.Agrees) :
    network.KeepsBooks index journal where
  mem_byUri_iff _ := agrees.mem_byUri_iff
  byUri_eq shown := (agrees.getElem?_byUri_iff.mp shown).2
  nodup := agrees.nodup
  answers {_ diagnostic} isGiven :=
    ⟨_, _, request?_report_of_journal found isGiven, agrees.snd_accept_iff diagnostic,
      journal.recorded_accept diagnostic, Journal.byUri_accept_of_not_kept⟩
  hasErrors_eq copied := agrees.hasErrors_eq copied

/-- Whatever is asked of the reporters of a network, its journals keep their two books. In a
session, whatever the services do, a parsed version has an error exactly if its journal has one
when its diagnostics are copied. -/
theorem keepsBooks :
    (∀ {network : Network}, network.HasFreshJournals →
      ∀ (requests : List (Nat × ReporterRequest)) {index : Nat} {journal : Journal},
        (network.serveAll requests).reporters[index]? = some (.project journal) →
          (network.serveAll requests).KeepsBooks index journal) ∧
    ∀ {session after : Session}, session.Arises →
      ∀ {n : Nat} (plan : Plan (Step n)) {compilation : Compilation} {migrated : ProgressTrees}
        {parsed : Parsed},
        (SessionM.parse (plan.services (Step.perform n)) compilation migrated).run session =
            (.ok (.ok parsed), after) →
          parsed.hasErrors = (after.journal parsed.program.journal).tally.hasErrors := by
  constructor
  · intro network fresh requests index journal found
    have agree := fresh.agree.serveAll requests
    exact keepsBooks_of_agrees found (agree.of_getElem? found)
  · intro session after arises n plan compilation migrated parsed ran
    exact arises.hasErrors_parse plan ran

/-- A warning is reported twice through a label and a remark once, before errors alone are kept.
The journal lists the warning once, and files the remark under the project. -/
theorem keepsBooks_sample :
    let network : Network :=
      { reporters := [.project (.empty {} "p"), .labelling {} 0 "L "] }
    let warning : Diagnostic :=
      { severity := .warning, location := { outer := { uri := "a" } }, message := "w" }
    let remark : Diagnostic := { severity := .info, message := "i" }
    let requests : List (Nat × ReporterRequest) :=
      [(1, .report (.full warning)), (1, .report (.full warning)), (0, .report (.final remark)),
        (0, .setErrorsOnly true), (0, .report (.info .parser {} "j"))]
    network.HasFreshJournals ∧
      (∃ journal, (network.serveAll requests).reporters[0]? = some (.project journal) ∧
        (network.serveAll requests).KeepsBooks 0 journal ∧
        journal.tally.recorded = [labelled "L " warning, remark] ∧
        journal.byUri.toList = [("a", [labelled "L " warning]), ("p", [remark])]) ∧
      ∃ parsed after,
        (SessionM.parse (Plan.services (Step.perform 0)
            { Plan.succeeding none with
              parse := { reports := [.full remark, .error .parser none {} "e"], reply := none } })
          .sample ∅).run (Session.initial {}) = (.ok (.ok parsed), after) ∧
        parsed.hasErrors = (after.journal parsed.program.journal).tally.hasErrors ∧
        parsed.hasErrors = true := by
  intro network warning remark requests
  have fresh : network.HasFreshJournals := by
    intro journal mem
    obtain rfl : journal = .empty {} "p" := by simpa [network] using mem
    exact ⟨{}, "p", rfl⟩
  refine ⟨fresh, ?_, ?_⟩
  · have books : ((network.serveAll requests).reporters[0]?.bind fun
        | .project journal => some (journal.tally.recorded, journal.byUri.toList)
        | .counting _ | .console .. | .silent _ | .labelling .. => none) =
        some ([labelled "L " warning, remark],
          [("a", [labelled "L " warning]), ("p", [remark])]) := by
      decide +kernel
    obtain ⟨reporter, found, isBooks⟩ := Option.bind_eq_some_iff.mp books
    split at isBooks
    · rename_i journal
      obtain ⟨recorded, shown⟩ := Prod.mk.inj (Option.some.inj isBooks)
      exact ⟨journal, found, keepsBooks.1 fresh requests found, recorded, shown⟩
    all_goals cases isBooks
  · obtain ⟨parsed, after, ran, errs⟩ : ∃ parsed after,
        (SessionM.parse (Plan.services (Step.perform 0)
            { Plan.succeeding none with
              parse := { reports := [.full remark, .error .parser none {} "e"], reply := none } })
          .sample ∅).run (Session.initial {}) = (.ok (.ok parsed), after) ∧
        parsed.hasErrors = true :=
      ⟨_, _, rfl, by decide +kernel⟩
    exact ⟨parsed, after, ran, keepsBooks.2 (Session.obtains_initial {}).arises _ ran, errs⟩

end Network

end Proofline
