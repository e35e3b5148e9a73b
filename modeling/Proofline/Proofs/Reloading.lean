import Proofline.Proofs.Lineage
import Proofline.Proofs.TreeContents

/-!
# Reloading unchanged text

An update whose version has the same root documents as the latest snapshot takes over all
of its progress trees, and since they are taken over, resolution adds nothing to them. What
is shown of the new version is what is shown of the old one, as long as the same is reported
of both and they are versions of the same project: what is reported without a document is
filed under the name of the project.
-/

namespace Proofline

namespace ProgressTrees

/-- Trees that all describe root documents of a version are migrated to it. -/
theorem migrate_eq_self {previous : ProgressTrees} {compilation : Compilation}
    (describe : ∀ (uri : String) (tree : ProgressTree), previous[uri]? = some tree →
      ∃ document ∈ compilation.roots, document.uri = uri ∧ tree.describes document = true) :
    previous.migrate compilation = previous := by
  apply Std.ExtTreeMap.ext_getElem?
  intro uri
  rw [getElem?_migrate]
  cases found : previous[uri]? with
  | none => rfl
  | some tree =>
      rcases describe uri tree found with ⟨document, isRoot, named, describes⟩
      rw [Option.filter_some, if_pos]
      rw [List.any_eq_true]
      exact ⟨document, isRoot, by simp [named, describes]⟩

end ProgressTrees

/-- A version begins with the trees migrated to it if these are all it has room for. -/
theorem Parsed.initialTrees_eq_self {compilation : Compilation} {migrated : ProgressTrees}
    (keys : ∀ uri, uri ∈ migrated ↔ uri ∈ compilation.rootUris) :
    initialTrees compilation migrated = migrated := by
  apply Std.ExtTreeMap.ext_getElem?
  intro uri
  rw [getElem?_initialTrees]
  have listed : (compilation.findRoot? uri).isSome = true ↔ uri ∈ migrated :=
    (compilation.isRoot_iff uri).trans (keys uri).symm
  rw [Std.ExtTreeMap.mem_iff_isSome_getElem?] at listed
  cases root : compilation.findRoot? uri with
  | none =>
      rw [root] at listed
      cases held : migrated[uri]? with
      | none => rfl
      | some tree => simp [held] at listed
  | some document =>
      rw [root] at listed
      rcases Option.isSome_iff_exists.mp (listed.mp rfl) with ⟨tree, held⟩
      simp [held]

/-- Nothing is added to trees that were all carried over. -/
theorem Resolved.pendingTrees_eq_self (parsed : Parsed) (units : List Declaration) :
    pendingTrees parsed parsed.trees units = parsed.trees := by
  unfold pendingTrees
  induction units with
  | nil => rfl
  | cons unit rest ih =>
      have adopted : addPending parsed parsed.trees parsed.trees unit = parsed.trees := by
        unfold addPending
        split
        · rfl
        · rename_i tree found
          simp [isAdopted, found]
      rw [List.foldl_cons, adopted]
      exact ih

/-- Whether a manager accepted a snapshot when just these reports to a journal had been made. -/
def HasAcceptedAfter (number : Nat) (snapshot : Snapshot) (journal : Nat) (reports : List Report)
    (entries : List ChronicleEntry) : Prop :=
  ∃ past entry later, entries = past ++ entry :: later ∧
    entry.event.accepted? number = some snapshot ∧ reportsTo journal past = reports

namespace Snapshot

/-- What is shown depends on the root documents and on what a snapshot has to show itself. -/
theorem diagnostics_congr {first second : Snapshot}
    (roots : first.compilation.roots = second.compilation.roots)
    (own : first.ownDiagnostics = second.ownDiagnostics) :
    first.diagnostics = second.diagnostics := by
  rw [diagnostics, diagnostics, roots, own]

theorem compilation_of_parsed? {snapshot : Snapshot} {parsed : Parsed}
    (isParsed : snapshot.parsed? = some parsed) : snapshot.compilation = parsed.compilation := by
  cases snapshot with
  | unloaded => cases isParsed
  | parsed | resolved | verified =>
      cases isParsed
      rfl

theorem compilation_of_resolved? {snapshot : Snapshot} {resolved : Resolved}
    (isResolved : snapshot.resolved? = some resolved) :
    snapshot.compilation = resolved.compilation := by
  cases snapshot with
  | unloaded | parsed => cases isResolved
  | resolved | verified =>
      cases isResolved
      rfl

end Snapshot

namespace SessionM

open Session (Knows Behaves)

/-- An update that resolves its version has loaded it with the trees of the snapshot that was
the latest one when it began. -/
theorem hasLoaded_of_update {services : Services} (respect : services.Respect (Behaves none))
    {session after : Session} (wellNumbered : session.WellNumbered) {number : Nat}
    (known : session.Knows number) {compilation : Compilation}
    (ran : (update services number compilation).run session = (.ok .resolved, after)) :
    HasLoaded number compilation
      ((session.manager number).latest.trees.migrate compilation) after := by
  rcases Int.lt_or_le compilation.version (session.manager number).latest.version with
    older | notOlder
  · rw [run_update_of_older older] at ran
    cases ran
  by_cases stale : (Snapshot.unloaded { compilation }).Precedes (session.manager number).latest
  · rcases run_update_of_stale notOlder stale with ⟨lines, turnedAway⟩
    rw [turnedAway] at ran
    cases ran
  · obtain ⟨opened, loading⟩ := isLoading_openedUpdate known notOlder stale
    have loads := meets_loadOrGiveUp respect compilation _ _
      (((evolves_updateBegun known notOlder).trans opened.evolves).wellNumbered wellNumbered)
      loading
    rw [run_update_of_not_stale services notOlder stale, run_bind] at ran
    split at ran
    · rename_i status middle loaded
      rw [loaded] at loads
      simp only [run_bind, run_change, run_pure] at ran
      cases ran
      rcases (loads.2 _ rfl).2 rfl with
        ⟨parsed, isVersion, parsedTrees, resolved, latest, isParsed, trees⟩
      exact ⟨parsed, isVersion, parsedTrees, resolved, by simpa [Manager.after] using latest,
        isParsed, trees⟩
    · cases ran

end SessionM

namespace Session

/-- What an update does to a manager that reloads the root documents of its latest snapshot
`previous` in another version. -/
structure Reloads (number : Nat) (previous : Snapshot) (compilation : Compilation)
    (before after : Session) (resolved : Resolved) : Prop where
  version : resolved.compilation = compilation
  isLatest : (after.manager number).latest = .resolved resolved
  wasParsed : HasAccepted number (.parsed resolved.parsed) after.chronicle
  wasResolved : HasAccepted number (.resolved resolved) after.chronicle
  parsedTrees : resolved.parsed.trees = previous.trees
  trees : resolved.trees = previous.trees
  /-- When parsing reports the same as before, the same is shown. -/
  parsedDiagnostics : compilation.project = previous.compilation.project →
    ∀ parsed reports, previous.parsed? = some parsed →
      HasAcceptedAfter number (.parsed parsed) parsed.program.journal reports before.chronicle →
      HasAcceptedAfter number (.parsed resolved.parsed) resolved.parsed.program.journal reports
        after.chronicle →
      (Snapshot.parsed resolved.parsed).diagnostics = (Snapshot.parsed parsed).diagnostics
  /-- When parsing and resolution report the same as before, and the same misuse of ghost code
  is found, the same is shown. -/
  resolvedDiagnostics : compilation.project = previous.compilation.project →
    ∀ former reports, previous.resolved? = some former →
      HasAcceptedAfter number (.resolved former) former.parsed.program.journal reports
        before.chronicle →
      HasAcceptedAfter number (.resolved resolved) resolved.parsed.program.journal reports
        after.chronicle →
      resolved.ghostDiagnostics = former.ghostDiagnostics →
      (Snapshot.resolved resolved).diagnostics = (Snapshot.resolved former).diagnostics

namespace Arises

variable {session : Session} {number : Nat} {reports : List Report}

/-- A parsed version shows what was reported until it was accepted. -/
theorem diagnostics_of_parsed (arises : session.Arises) {parsed : Parsed}
    (accepted : HasAcceptedAfter number (.parsed parsed) parsed.program.journal reports
      session.chronicle) :
    parsed.diagnostics =
      (Journal.ofReports session.options parsed.compilation.project reports).byUri := by
  rcases accepted with ⟨past, entry, later, parts, isAccepted, rfl⟩
  exact arises.hasWarrant_of_accepted parts isAccepted

/-- A resolved version shows what was reported until it was accepted. -/
theorem diagnostics_of_resolved (arises : session.Arises) {resolved : Resolved}
    (accepted : HasAcceptedAfter number (.resolved resolved) resolved.parsed.program.journal
      reports session.chronicle) :
    resolved.diagnostics =
      (Journal.ofReports session.options resolved.compilation.project reports).byUri := by
  rcases accepted with ⟨past, entry, later, parts, isAccepted, rfl⟩
  have warrant : resolved.HasWarrant number session.options past :=
    arises.hasWarrant_of_accepted parts isAccepted
  exact warrant.diagnostics

/-- An update that resolves a newer version with the same root documents reloads them. -/
theorem reloads (arises : session.Arises) {n : Nat} (plan : Plan (Step n))
    {compilation : Compilation} {after : Session}
    (loaded : (session.manager number).latest.stage ≠ .unloaded)
    (newer : (session.manager number).latest.version < compilation.version)
    (sameRoots : compilation.roots = (session.manager number).latest.compilation.roots)
    (ran : (SessionM.update (plan.services (Step.perform n)) number compilation).run session =
      (.ok .resolved, after)) :
    ∃ resolved, Reloads number (session.manager number).latest compilation session after
      resolved := by
  have respect := SessionM.respect_services (isDiscipline_behaves none)
    (Step.behaves_perform n) plan
  have wellNumbered := arises.occurs.isReachable.wellNumbered
  have known := knows_of_stage_ne loaded
  have behaves := (SessionM.meets_update respect compilation session wellNumbered known).1
  rw [ran] at behaves
  have arisesAfter := arises.of_behaves behaves
  have sameOptions : after.options = session.options := behaves.records.options
  have whole : session.chronicle = session.chronicle ++ [] := by simp
  rcases SessionM.hasLoaded_of_update respect wellNumbered known ran with
    ⟨parsed, rfl, parsedTrees, resolved, isLatest, rfl, trees⟩
  -- All trees are migrated, so they are the ones with which the version begins.
  have describe := arises.occurs.describesRoots number whole
  have keys := arises.occurs.coversRoots number whole
  rw [arises.occurs.latestAfter_chronicle, Snapshot.DescribesRoots, ← sameRoots] at describe
  rw [arises.occurs.latestAfter_chronicle, Snapshot.CoversRoots, Compilation.rootUris,
    ← sameRoots] at keys
  rw [ProgressTrees.migrate_eq_self describe] at parsedTrees trees
  rw [Parsed.initialTrees_eq_self (keys loaded)] at parsedTrees
  rw [← parsedTrees, Resolved.pendingTrees_eq_self] at trees
  have lineage := arisesAfter.occurs.hasLineage_latest number
  rw [isLatest] at lineage
  refine ⟨resolved, rfl, isLatest, lineage.parsed _ rfl, lineage.resolved _ rfl, parsedTrees,
    trees.trans parsedTrees, ?_, ?_⟩
  · intro sameProject former reports isFormer before after
    rw [Snapshot.compilation_of_parsed? isFormer] at sameProject sameRoots
    apply Snapshot.diagnostics_congr
    · exact sameRoots
    · rw [Snapshot.ownDiagnostics, Snapshot.ownDiagnostics,
        arisesAfter.diagnostics_of_parsed after, arises.diagnostics_of_parsed before, sameOptions,
        sameProject]
  · intro sameProject former reports isFormer before after sameGhosts
    rw [Snapshot.compilation_of_resolved? isFormer] at sameProject sameRoots
    have sameName : resolved.compilation.project = former.compilation.project := sameProject
    apply Snapshot.diagnostics_congr
    · exact sameRoots
    · rw [Snapshot.ownDiagnostics, Snapshot.ownDiagnostics, Resolved.shownDiagnostics,
        Resolved.shownDiagnostics, arisesAfter.diagnostics_of_resolved after,
        arises.diagnostics_of_resolved before, sameOptions, sameName, sameGhosts]

end Arises

end Session

/-- Where nothing was reported at all, a snapshot was accepted after no reports. -/
theorem HasAccepted.after_nothing {number : Nat} {snapshot : Snapshot}
    {entries : List ChronicleEntry} (accepted : HasAccepted number snapshot entries)
    {journal : Nat} (silent : reportsTo journal entries = []) :
    HasAcceptedAfter number snapshot journal [] entries := by
  rcases accepted with ⟨entry, mem, isAccepted⟩
  rcases List.append_of_mem mem with ⟨past, later, rfl⟩
  rw [reportsTo_append, List.append_eq_nil_iff] at silent
  exact ⟨past, entry, later, rfl, isAccepted, silent.1⟩

namespace Session

/-- Reload the sample project in version 2. -/
def reloadSample : SessionM UpdateStatus :=
  SessionM.update ((Plan.succeeding (some (.sampleModule 1))).services (Step.perform 0)) 0
    { Compilation.sample with version := 2 }

/-- Version 2 of the sample project has the tree of version 1, which was verified, and shows
the same. -/
theorem reloads_sample :
    ∃ (after : Session) (former resolved : Resolved),
      (after.manager 0).latest = .resolved resolved ∧ resolved.compilation.version = 2 ∧
      (resolved.trees["a"]?).map ProgressTree.status = some .verified ∧
      former.compilation.version = 1 ∧
      (Snapshot.resolved resolved).diagnostics = (Snapshot.resolved former).diagnostics := by
  have before : (verifiedSample.manager 0).latest.stage = .verified ∧
      (verifiedSample.manager 0).latest.version = 1 ∧
      (verifiedSample.manager 0).latest.compilation.roots = Compilation.sample.roots ∧
      (verifiedSample.manager 0).latest.compilation.project = "p" ∧
      ((verifiedSample.manager 0).latest.trees["a"]?).map ProgressTree.status =
        some .verified ∧
      (verifiedSample.manager 0).latest.resolved?.map
        (fun former => (former.parsed.program.journal, former.ghostDiagnostics)) =
          some (0, []) ∧
      reportsTo 0 verifiedSample.chronicle = [] := by
    decide +kernel
  have resolves : (reloadSample.run verifiedSample).1.toOption = some .resolved := by
    decide +kernel
  have afterwards : ((reloadSample.run verifiedSample).2.manager 0).latest.resolved?.map
        (fun resolved => (resolved.parsed.program.journal, resolved.ghostDiagnostics)) =
          some (1, []) ∧
      reportsTo 1 (reloadSample.run verifiedSample).2.chronicle = [] := by
    decide +kernel
  have arises : verifiedSample.Arises := arises_run {} 0 _
  generalize verifiedSample = session at *
  rcases ran : reloadSample.run session with ⟨outcome, after⟩
  simp only [ran] at resolves afterwards
  obtain rfl : outcome = .ok .resolved := by
    cases outcome with
    | error stop => cases resolves
    | ok status => exact congrArg _ (Option.some.inj resolves)
  rcases before with ⟨stage, version, roots, project, status, former, silent⟩
  rcases Option.map_eq_some_iff.mp former with ⟨former, isFormer, formerFacts⟩
  rw [Prod.mk.injEq] at formerFacts
  have sameRoots : ({ Compilation.sample with version := 2 } : Compilation).roots =
      (session.manager 0).latest.compilation.roots := roots.symm
  rcases arises.reloads (.succeeding (some (.sampleModule 1))) (by simp [stage])
    (by rw [version]; decide) sameRoots ran with ⟨resolved, reloads⟩
  rw [reloads.isLatest, Snapshot.resolved?, Option.map_some, Option.some.injEq, Prod.mk.injEq]
    at afterwards
  have wasFormer := (arises.occurs.hasLineage_latest 0).resolved former isFormer
  refine ⟨after, former, resolved, reloads.isLatest, ?_, ?_, ?_, ?_⟩
  · rw [reloads.version]
  · rw [reloads.trees, status]
  · rw [← Snapshot.compilation_of_resolved? isFormer]
    exact version
  · refine reloads.resolvedDiagnostics project.symm former [] isFormer
      (wasFormer.after_nothing (formerFacts.1 ▸ silent))
      (reloads.wasResolved.after_nothing (afterwards.1.1 ▸ afterwards.2)) ?_
    rw [afterwards.1.2, formerFacts.2]

end Session

/-- The steps that load the sample project and reload it in version 2 under the name of
another project. Both times the parser has the same remark, about no document. -/
def Step.sampleRenaming : List (Step 0) :=
  let remark : Diagnostic := { severity := .warning, message := "w" }
  let plan : Plan Empty :=
    { Plan.succeeding none with parse := { reports := [.full remark], reply := none } }
  [{ request := .openProject .sample, plan },
    { request := .update 0 .sample, plan },
    { request := .update 0 { Compilation.sample with project := "q", version := 2 }, plan }]

namespace Session

/-- The session after these steps. -/
def renamed : Session :=
  (run {} 0 Step.sampleRenaming).2

/-- What is reported of both versions is the same and their root documents are the same, but
the remark is shown for the one project and then for the other. -/
theorem renamed_sample :
    (acceptances 0 renamed.chronicle).map (fun snapshot => (snapshot.version, snapshot.stage)) =
        [(1, .unloaded), (1, .parsed), (1, .resolved), (2, .unloaded), (2, .parsed),
          (2, .resolved)] ∧
      (∀ snapshot ∈ acceptances 0 renamed.chronicle,
        snapshot.compilation.roots = Compilation.sample.roots) ∧
      reportsTo 0 renamed.chronicle = reportsTo 1 renamed.chronicle ∧
      (acceptances 0 renamed.chronicle).map (fun snapshot => snapshot.diagnostics.keys) =
        [["a"], ["a", "p"], ["a", "p"], ["a"], ["a", "q"], ["a", "q"]] := by
  decide +kernel

end Session

end Proofline
