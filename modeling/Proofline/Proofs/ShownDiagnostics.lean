import Mathlib.Data.List.Chain
import Proofline.Proofs.Bookkeeping
import Proofline.Proofs.PendingUnits

/-!
# What the stages of a version show

The diagnostics of a version come from three sources: its journal, which goes on to be reported
to between parsing and resolution, the misuse of ghost code, and the outcomes of its units. Each
stage shows of a document what the stage before showed of it, and then what is new. Nothing is
lost on the way, and nothing comes in a different order or twice.
-/

namespace Proofline

/-- A table lists one entry at most for a key. -/
theorem Table.filter_toList {κ α : Type} [Ord κ] [Std.TransOrd κ] [Std.LawfulEqOrd κ]
    [DecidableEq κ] (table : Table κ α) (key : κ) :
    (table.toList.filter fun entry => entry.1 = key) =
      (table[key]?.map fun value => (key, value)).toList := by
  have distinct : (table.toList.filter fun entry => entry.1 = key).Nodup := by
    refine (Std.ExtTreeMap.distinct_keys_toList.imp ?_).filter _
    rintro entry _ differ rfl
    exact differ Std.ReflCmp.compare_self
  have members (entry : κ × α) :
      (entry ∈ table.toList.filter fun entry => entry.1 = key) ↔
        entry.1 = key ∧ table[key]? = some entry.2 := by
    rw [List.mem_filter, Std.ExtTreeMap.mem_toList_iff_getElem?_eq_some, decide_eq_true_eq,
      and_comm]
    exact and_congr_right fun same => by rw [same]
  cases found : table[key]? with
  | none =>
      refine List.eq_nil_iff_forall_not_mem.mpr fun entry mem => ?_
      have isFound := ((members entry).mp mem).2
      rw [found] at isFound
      cases isFound
  | some value =>
      refine List.perm_singleton.mp ((List.perm_ext_iff_of_nodup distinct
        (List.pairwise_singleton _ _)).mpr fun entry => ?_)
      rw [members, found, List.mem_singleton, Prod.ext_iff, Option.some.injEq, eq_comm (a := value)]

namespace DiagnosticsByUri

/-- Whether a table lists just these diagnostics of each document, and leaves out documents
that there are none of. -/
def Lists (table : DiagnosticsByUri) (list : String → List Diagnostic) : Prop :=
  ∀ uri, table[uri]? = if list uri = [] then none else some (list uri)

theorem lists_empty : Lists ∅ fun _ => [] := by
  simp [Lists]

namespace Lists

variable {table other : DiagnosticsByUri} {list more : String → List Diagnostic}

theorem getD_eq (lists : table.Lists list) (uri : String) : table.getD uri [] = list uri := by
  rw [Std.ExtTreeMap.getD_eq_getD_getElem?, lists]
  split
  · rename_i nothing
    exact nothing.symm
  · rfl

theorem congr (lists : table.Lists list) (same : ∀ uri, list uri = more uri) :
    table.Lists more := by
  rwa [← funext same]

/-- Further diagnostics go to the end of the list of their document. -/
theorem append (lists : table.Lists list) (uri : String) {diagnostics : List Diagnostic}
    (some_left : diagnostics ≠ []) :
    Lists (table.insert uri (table.getD uri [] ++ diagnostics)) fun other =>
      list other ++ if uri = other then diagnostics else [] := by
  intro other
  rw [Std.ExtTreeMap.getElem?_insert, lists.getD_eq]
  by_cases same : uri = other
  · subst same
    simp [some_left]
  · simp [same, lists other]

/-- Diagnostics that are filed one after the other go to the ends of the lists they belong to. -/
theorem foldl_file (lists : table.Lists list) (place : Diagnostic → String)
    (diagnostics : List Diagnostic) :
    Lists (diagnostics.foldl (fun table diagnostic => table.file (place diagnostic) diagnostic)
        table)
      fun uri => list uri ++ diagnostics.filter fun diagnostic => place diagnostic = uri := by
  induction diagnostics generalizing table list with
  | nil => exact lists.congr (by simp)
  | cons diagnostic rest ih =>
      refine (ih (lists.append (place diagnostic) (List.cons_ne_nil diagnostic []))).congr ?_
      intro uri
      by_cases same : place diagnostic = uri <;> simp [same]

/-- The lists of another table go to the ends of the lists of the same documents. -/
theorem foldl_toList (lists : table.Lists list) (others : other.Lists more) :
    Lists (other.toList.foldl
        (fun table entry => table.insert entry.1 (table.getD entry.1 [] ++ entry.2)) table)
      fun uri => list uri ++ more uri := by
  have merged (entries : List (String × List Diagnostic))
      (filled : ∀ entry ∈ entries, entry.2 ≠ []) :
      Lists (entries.foldl
          (fun table entry => table.insert entry.1 (table.getD entry.1 [] ++ entry.2)) table)
        fun uri => list uri ++ (entries.filter fun entry => entry.1 = uri).flatMap Prod.snd := by
    induction entries generalizing table list with
    | nil => exact lists.congr (by simp)
    | cons entry rest ih =>
        have first := lists.append entry.1 (filled entry (by simp))
        refine (ih first fun entry mem => filled entry (by simp [mem])).congr ?_
        intro uri
        by_cases same : entry.1 = uri <;> simp [same]
  have filled : ∀ entry ∈ other.toList, entry.2 ≠ [] := by
    rintro ⟨uri, diagnostics⟩ mem
    rw [Std.ExtTreeMap.mem_toList_iff_getElem?_eq_some, others] at mem
    split at mem
    · cases mem
    · rename_i something
      obtain rfl := Option.some.inj mem
      exact something
  refine (merged other.toList filled).congr fun uri => congrArg (list uri ++ ·) ?_
  rw [Table.filter_toList, others uri]
  split
  · rename_i nothing
    exact nothing.symm
  · simp

end Lists

end DiagnosticsByUri

/-- What a journal shows is what it files. -/
theorem Journal.lists_byUri (journal : Journal) :
    DiagnosticsByUri.Lists journal.byUri journal.filed :=
  journal.getElem?_byUri

namespace Diagnostic

/-- Those of some diagnostics that are filed under a document, where the ones without a document
are filed under `fallback`. -/
def filedAmong (fallback uri : String) (diagnostics : List Diagnostic) : List Diagnostic :=
  diagnostics.filter fun diagnostic => diagnostic.filedUnder fallback = uri

end Diagnostic

open Diagnostic (filedAmong)

namespace Snapshot

/-- Whether a snapshot shows just these diagnostics of each document. Of documents that there
are none of it shows the root documents only. -/
def Shows (snapshot : Snapshot) (list : String → List Diagnostic) : Prop :=
  ∀ uri, snapshot.diagnostics[uri]? =
    if list uri = [] ∧ uri ∉ snapshot.compilation.rootUris then none else some (list uri)

/-- Whether a snapshot goes on to show whatever an earlier one showed, of each document in the
same order and before anything else. -/
def Continues (earlier later : Snapshot) : Prop :=
  ∀ (uri : String) (list : List Diagnostic), earlier.diagnostics[uri]? = some list →
    ∃ more, later.diagnostics[uri]? = some (list ++ more)

theorem getElem?_foldl_insertIfNew (roots : List Document) (table : DiagnosticsByUri)
    (uri : String) :
    (roots.foldl (fun table document => table.insertIfNew document.uri []) table)[uri]? =
      table[uri]?.or (if uri ∈ roots.map Document.uri then some [] else none) := by
  induction roots generalizing table with
  | nil => simp
  | cons document rest ih =>
      rw [List.foldl_cons, ih, Std.ExtTreeMap.getElem?_insertIfNew]
      by_cases same : document.uri = uri
      · subst same
        by_cases known : document.uri ∈ table <;> simp [known]
      · simp [same, Ne.symm same]

/-- What a snapshot has to show itself is what it shows, along with its root documents. -/
theorem shows_of_lists (snapshot : Snapshot) {list : String → List Diagnostic}
    (lists : snapshot.ownDiagnostics.Lists list) : snapshot.Shows list := by
  intro uri
  rw [diagnostics, getElem?_foldl_insertIfNew, lists uri, ← Compilation.rootUris]
  by_cases nothing : list uri = []
  · by_cases root : uri ∈ snapshot.compilation.rootUris <;> simp [nothing, root]
  · simp [nothing]

/-- A snapshot continues another one of the same root documents if it shows more of each
document. -/
theorem Shows.continues {earlier later : Snapshot} {list more : String → List Diagnostic}
    (shows : earlier.Shows list) (showsMore : later.Shows more)
    (same : earlier.compilation = later.compilation)
    (grows : ∀ uri, list uri <+: more uri) : earlier.Continues later := by
  intro uri shown isShown
  rw [shows uri] at isShown
  rw [showsMore uri, ← same]
  rcases grows uri with ⟨added, isMore⟩
  split at isShown
  · cases isShown
  · rename_i present
    obtain rfl := Option.some.inj isShown
    refine ⟨added, ?_⟩
    rw [if_neg, isMore]
    rintro ⟨nothing, notRoot⟩
    rw [← isMore, List.append_eq_nil_iff] at nothing
    exact present ⟨nothing.1, notRoot⟩

theorem Continues.trans {first second third : Snapshot} (before : first.Continues second)
    (after : second.Continues third) : first.Continues third := by
  intro uri list shown
  rcases before uri list shown with ⟨more, shownMore⟩
  rcases after uri _ shownMore with ⟨rest, shownAll⟩
  exact ⟨more ++ rest, by rw [shownAll, List.append_assoc]⟩

instance : Trans Continues Continues Continues := ⟨Continues.trans⟩

end Snapshot

namespace Journal

/-- What is recorded stays recorded, before anything that is reported later. -/
theorem recorded_prefix_report (journal : Journal) (given : Report) :
    journal.tally.recorded <+: (journal.report given).tally.recorded := by
  unfold report
  split
  · exact List.prefix_rfl
  · rw [recorded_accept]
    exact List.prefix_append _ _

theorem recorded_prefix_ofReports (options : Options) (project : String)
    (reports later : List Report) :
    (ofReports options project reports).tally.recorded <+:
      (ofReports options project (reports ++ later)).tally.recorded := by
  induction later using List.reverseRecOn with
  | nil => simp
  | append_singleton later given ih =>
      rw [← List.append_assoc, ofReports_append_singleton]
      exact ih.trans (recorded_prefix_report _ given)

end Journal

/-- What a journal has recorded stays recorded as a session goes on. -/
theorem Session.Records.recorded_prefix {before after : Session} (records : before.Records after)
    (keeps : before.KeepsJournals) {number : Nat} {project : String}
    (opened : before.HasJournal number project) :
    (before.journal number).tally.recorded <+: (after.journal number).tally.recorded := by
  rcases records.warranted with ⟨entries, chronicleEq, _⟩
  rw [keeps.journal_eq opened,
    (records.keepsJournals keeps).journal_eq (records.hasJournal opened), records.options,
    chronicleEq, journalAfter, journalAfter, reportsTo_append]
  exact Journal.recorded_prefix_ofReports ..

namespace Verified

/-- The diagnostics of recorded outcomes that are filed under a document, in the order in which
the outcomes were recorded. -/
def outcomesFiled (recorded : List (Declaration × Outcome)) (uri : String) : List Diagnostic :=
  recorded.flatMap fun entry => filedAmong entry.1.uri uri entry.2.diagnostics

theorem lists_verifierDiagnostics {verified : Verified} {list : String → List Diagnostic}
    (lists : verified.verifierDiagnostics.Lists list)
    (recorded : List (Declaration × Outcome)) :
    (verified.record recorded).verifierDiagnostics.Lists fun uri =>
      list uri ++ outcomesFiled recorded uri := by
  induction recorded generalizing verified list with
  | nil => exact lists.congr (by simp [outcomesFiled])
  | cons entry rest ih =>
      refine (ih (lists.foldl_file _ entry.2.diagnostics)).congr fun uri => ?_
      rw [List.append_assoc]
      rfl

end Verified

namespace Resolved

/-- The stages of a version from parsing on, each built from the one before it, while results
are recorded one after the other. -/
def stages (resolved : Resolved) (outcomes : List (Declaration × Outcome)) : List Snapshot :=
  .parsed resolved.parsed :: .resolved resolved ::
    (outcomes.scanl (fun partly entry => partly.withResult entry.1 entry.2) (.start resolved)).map
      .verified

/-- How the stages of a version show its diagnostics, of which `recorded` were those in its
journal when it was resolved. -/
structure ShowsThroughout (recorded : List Diagnostic) (resolved : Resolved) : Prop where
  /-- A stage goes on to show what all stages before it showed. -/
  continues : ∀ outcomes, (resolved.stages outcomes).Pairwise Snapshot.Continues
  /-- When results are recorded, what is in the journal comes first, then the misuse of ghost
  code and then the outcomes. -/
  verified : ∀ outcomes,
    (Snapshot.verified ((Verified.start resolved).record outcomes)).Shows fun uri =>
      filedAmong resolved.compilation.project uri recorded ++
        filedAmong resolved.compilation.project uri resolved.ghostDiagnostics ++
          Verified.outcomesFiled outcomes uri
  roots : ∀ outcomes, ∀ snapshot ∈ resolved.stages outcomes,
    ∀ uri ∈ resolved.compilation.rootUris, uri ∈ snapshot.diagnostics

variable {resolved : Resolved} {list filed : String → List Diagnostic}

theorem lists_shownDiagnostics (lists : resolved.diagnostics.Lists list) :
    resolved.shownDiagnostics.Lists fun uri =>
      list uri ++ filedAmong resolved.compilation.project uri resolved.ghostDiagnostics :=
  lists.foldl_file _ resolved.ghostDiagnostics

/-- What is shown of a version with some results recorded. -/
theorem shows_record (lists : resolved.diagnostics.Lists list)
    (outcomes : List (Declaration × Outcome)) :
    (Snapshot.verified ((Verified.start resolved).record outcomes)).Shows fun uri =>
      list uri ++ filedAmong resolved.compilation.project uri resolved.ghostDiagnostics ++
        Verified.outcomesFiled outcomes uri := by
  apply Snapshot.shows_of_lists
  have nothing : (Verified.start resolved).verifierDiagnostics.Lists fun _ => [] :=
    DiagnosticsByUri.lists_empty
  have outcomesListed := Verified.lists_verifierDiagnostics nothing outcomes
  rw [Snapshot.ownDiagnostics, Verified.shownDiagnostics, Verified.resolved_record]
  exact (lists_shownDiagnostics lists).foldl_toList (outcomesListed.congr fun uri => by simp)

theorem compilation_of_mem_stages {outcomes : List (Declaration × Outcome)} {snapshot : Snapshot}
    (mem : snapshot ∈ resolved.stages outcomes) : snapshot.compilation = resolved.compilation := by
  rw [stages, List.mem_cons, List.mem_cons, List.mem_map] at mem
  rcases mem with rfl | rfl | ⟨partly, mem, rfl⟩
  · rfl
  · rfl
  · obtain ⟨count, bound, rfl⟩ := List.getElem_of_mem mem
    rw [List.getElem_scanl]
    exact Verified.compilation_record _ (outcomes.take count)

/-- Recording a result continues what is shown. -/
theorem record_continues (lists : resolved.diagnostics.Lists list)
    (former : List (Declaration × Outcome)) (entry : Declaration × Outcome) :
    (Snapshot.verified ((Verified.start resolved).record former)).Continues
      (.verified ((Verified.start resolved).record (former ++ [entry]))) := by
  apply (shows_record lists former).continues (shows_record lists (former ++ [entry]))
  · rw [Snapshot.compilation, Snapshot.compilation, Verified.compilation_record,
      Verified.compilation_record]
  · intro uri
    rw [Verified.outcomesFiled, Verified.outcomesFiled, List.flatMap_append, ← List.append_assoc]
    exact List.prefix_append _ _

/-- Recording results one after the other continues what is shown. -/
theorem isChain_record (lists : resolved.diagnostics.Lists list)
    (former outcomes : List (Declaration × Outcome)) :
    ((outcomes.scanl (fun partly entry => partly.withResult entry.1 entry.2)
        ((Verified.start resolved).record former)).map Snapshot.verified).IsChain
      Snapshot.Continues := by
  induction outcomes generalizing former with
  | nil => simp
  | cons entry rest ih =>
      have next := ih (former ++ [entry])
      have recorded := record_continues lists former entry
      rw [Verified.record_append] at next recorded
      rw [List.scanl_cons, List.map_cons]
      refine List.isChain_cons.mpr ⟨?_, next⟩
      rw [List.head?_map, List.head?_scanl]
      rintro _ ⟨⟩
      exact recorded

/-- A version shows its diagnostics throughout if what was parsed of it showed what its journal
had recorded by then. -/
theorem showsThroughout_of_lists {recorded : List Diagnostic}
    (parsed : resolved.parsed.diagnostics.Lists filed)
    (grows : ∀ uri, filed uri <+: filedAmong resolved.compilation.project uri recorded)
    (lists : resolved.diagnostics.Lists fun uri =>
      filedAmong resolved.compilation.project uri recorded) :
    resolved.ShowsThroughout recorded where
  continues outcomes := by
    have parsedShows := Snapshot.shows_of_lists (.parsed resolved.parsed) parsed
    have resolvedShows := Snapshot.shows_of_lists (.resolved resolved)
      (lists_shownDiagnostics lists)
    apply List.IsChain.pairwise
    refine List.isChain_cons_cons.mpr ⟨?_, List.isChain_cons.mpr
      ⟨?_, isChain_record lists [] outcomes⟩⟩
    · exact parsedShows.continues resolvedShows rfl fun uri =>
        (grows uri).trans (List.prefix_append _ _)
    · suffices (Snapshot.resolved resolved).Continues (.verified (.start resolved)) by
        simpa using this
      exact resolvedShows.continues (shows_record lists []) rfl fun uri =>
        List.prefix_append _ _
  verified := shows_record lists
  roots outcomes snapshot mem uri root := by
    rw [Snapshot.mem_diagnostics, compilation_of_mem_stages mem]
    exact Or.inr root

end Resolved

namespace Session

/-- What a journal shows of a document is what it recorded for it. -/
theorem KeepsJournals.lists_byUri {session : Session} (keeps : session.KeepsJournals)
    {number : Nat} {project : String} (opened : session.HasJournal number project) :
    DiagnosticsByUri.Lists (session.journal number).byUri fun uri =>
      filedAmong project uri (session.journal number).tally.recorded := by
  have isProject : (session.journal number).project = project := by
    rw [journal, List.getD_eq_getElem?_getD]
    rcases Option.map_eq_some_iff.mp opened with ⟨journal, found, named⟩
    rwa [found]
  refine (Journal.lists_byUri _).congr fun uri => ?_
  rw [(keeps.agrees opened).filed_eq, isProject]
  rfl

/-- Whatever a version is parsed and resolved with, and whatever runs in between, no diagnostic
is lost, reordered or duplicated on the way. -/
theorem Arises.showsThroughout {session parsedIn resumed after : Session}
    (arises : session.Arises) {n m : Nat} (parsing : Plan (Step n)) (resolving : Plan (Step m))
    {compilation : Compilation} {migrated others : ProgressTrees} {parsed : Parsed}
    {resolved : Resolved}
    (parses : (SessionM.parse (parsing.services (Step.perform n)) compilation migrated).run
      session = (.ok (.ok parsed), parsedIn))
    (goesOn : parsedIn.Unfolds resumed ∧ parsedIn.Records resumed)
    (resolves : (SessionM.resolve (resolving.services (Step.perform m)) parsed others).run
      resumed = (.ok (.ok resolved), after)) :
    resolved.parsed = parsed ∧
      resolved.ShowsThroughout (after.journal parsed.program.journal).tally.recorded := by
  have parsingMeets := SessionM.meets_parse (isDiscipline_behaves none)
    (SessionM.respect_services (isDiscipline_behaves none) (Step.behaves_perform n) parsing)
    compilation migrated session arises.occurs.isReachable.wellNumbered trivial
  rw [parses] at parsingMeets
  rcases parsingMeets with ⟨behavesParsing, parsedAs⟩
  obtain ⟨_, _, isFiled⟩ := parsedAs (.ok parsed) rfl parsed rfl
  have arisesParsed := arises.of_behaves behavesParsing
  have reachable := arisesParsed.occurs.isReachable.of_evolves goesOn.1.evolves
  have resolvingMeets := SessionM.meets_resolve (isDiscipline_behaves none)
    (SessionM.respect_services (isDiscipline_behaves none) (Step.behaves_perform m) resolving)
    0 _ parsed others resumed reachable.wellNumbered rfl
  rw [resolves] at resolvingMeets
  rcases resolvingMeets with ⟨behavesResolving, resolvedAs⟩
  obtain ⟨rfl, _, isShown⟩ := resolvedAs (.ok resolved) rfl resolved rfl
  have records := goesOn.2.trans behavesResolving.records
  have keeps := arisesParsed.keepsJournals
  have lists : resolved.parsed.diagnostics.Lists _ :=
    isFiled.diagnostics ▸ keeps.lists_byUri isFiled.opened
  refine ⟨rfl, Resolved.showsThroughout_of_lists lists (fun uri => ?_) ?_⟩
  · exact (records.recorded_prefix keeps isFiled.opened).filter _
  · rw [isShown.diagnostics]
    exact (records.keepsJournals keeps).lists_byUri (records.hasJournal isFiled.opened)

end Session

namespace SessionM

variable {α : Type} {action : SessionM (Except CancelReason α)} {session after : Session}
  {value : α}

/-- What loading returns and leaves behind when it is neither stopped nor canceled. -/
def completed? (action : SessionM (Except CancelReason α)) (session : Session) :
    Option (α × Session) :=
  match action.run session with
  | (.ok (.ok value), after) => some (value, after)
  | _ => none

theorem completed?_eq_some_iff :
    action.completed? session = some (value, after) ↔
      action.run session = (.ok (.ok value), after) := by
  unfold completed?
  split
  · rename_i ran
    rw [ran]
    exact ⟨fun same => by cases same; rfl, fun same => by cases same; rfl⟩
  · rename_i others
    exact ⟨nofun, fun ran => absurd ran (others value after)⟩

end SessionM

namespace Session

/-- The parser has a remark about no document and the resolver one about a document, and ghost
code is misused in no document. Between parsing and resolution a project is opened. Then the
result of a unit comes with a diagnostic without a document, which is shown for that of the
unit. -/
theorem showsThroughout_sample :
    let remark : Diagnostic := { severity := .warning, message := "w" }
    let hint : Diagnostic :=
      { severity := .warning, location := { outer := { uri := "a" } }, message := "h" }
    let misuse : Diagnostic := { severity := .warning, message := "g" }
    let failure : Diagnostic := { severity := .error, message := "f" }
    let plan : Plan (Step 0) := .succeeding (some (.sampleModule 1))
    let parsing : Plan (Step 0) :=
      { plan with parse := { plan.parse with reports := [.full remark] } }
    let resolving : Plan (Step 0) :=
      { plan with
        resolve := { plan.resolve with reports := [.full hint] }
        ghosts := { plan.ghosts with reply := [misuse] } }
    let outcomes : List (Declaration × Outcome) :=
      [(.sampleMethod, { status := .failed, diagnostics := [failure] })]
    let opening : Step 0 := { request := .openProject .sample, plan := .succeeding none }
    ∃ (parsed : Parsed) (parsedIn after : Session) (resolved : Resolved),
      (SessionM.parse (parsing.services (Step.perform 0)) .sample ∅).run (initial {}) =
        (.ok (.ok parsed), parsedIn) ∧
      (SessionM.resolve (resolving.services (Step.perform 0)) parsed ∅).run
        ((Step.perform 0 opening).run parsedIn).2 = (.ok (.ok resolved), after) ∧
      resolved.ShowsThroughout (after.journal parsed.program.journal).tally.recorded ∧
      (Snapshot.parsed parsed).diagnostics.toList = [("a", []), ("p", [remark])] ∧
      (Snapshot.verified ((Verified.start resolved).record outcomes)).diagnostics.toList =
        [("a", [hint, failure]), ("p", [remark, misuse])] := by
  intro remark hint misuse failure plan parsing resolving outcomes opening
  have loads : ((SessionM.parse (parsing.services (Step.perform 0)) .sample ∅).completed?
      (initial {})).bind (fun (parsed, parsedIn) =>
        ((SessionM.resolve (resolving.services (Step.perform 0)) parsed ∅).completed?
          ((Step.perform 0 opening).run parsedIn).2).map fun (resolved, _) =>
            ((Snapshot.parsed parsed).diagnostics.toList,
              (Snapshot.verified ((Verified.start resolved).record outcomes)).diagnostics.toList)) =
      some ([("a", []), ("p", [remark])], [("a", [hint, failure]), ("p", [remark, misuse])]) := by
    decide +kernel
  obtain ⟨⟨parsed, parsedIn⟩, parses, resolves⟩ := Option.bind_eq_some_iff.mp loads
  obtain ⟨⟨resolved, after⟩, resolves, shown⟩ := Option.map_eq_some_iff.mp resolves
  obtain ⟨shownFirst, shownLast⟩ := Prod.mk.inj shown
  rw [SessionM.completed?_eq_some_iff] at parses resolves
  have arises := (obtains_initial {}).arises
  have opens : ∀ session : Session, session.WellNumbered →
      session.Unfolds ((Step.perform 0 opening).run session).2 ∧
        session.Records ((Step.perform 0 opening).run session).2 := by
    intro session wellNumbered
    have behaves := (Step.behaves_perform 0 opening session wellNumbered trivial).1
    exact ⟨behaves.unfolds, behaves.records⟩
  have respect := SessionM.respect_services (isDiscipline_behaves none)
    (Step.behaves_perform 0) parsing
  have behaves := (SessionM.respects_parse (isDiscipline_behaves none) respect .sample ∅
    (initial {}) arises.occurs.isReachable.wellNumbered trivial).1
  rw [parses] at behaves
  have wellNumbered := (arises.of_behaves behaves).occurs.isReachable.wellNumbered
  have throughout := arises.showsThroughout parsing resolving parses (opens _ wellNumbered) resolves
  exact ⟨parsed, parsedIn, after, resolved, parses, resolves, throughout.2, shownFirst, shownLast⟩

end Session

end Proofline
