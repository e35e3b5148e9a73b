import Proofline.Proofs.PublicationOrder
import Proofline.Proofs.ScriptedVerifier

/-!
# What the client shows

A client shows for each document what was last published for it. Snapshots are
announced one after the other, each in full if the publisher does not fail, so this is
what the newest snapshot that says anything of the document says of it. The latest
snapshot says something of its root documents and of those it has diagnostics for; of
any other document the client goes on to show what an older snapshot said.
-/

namespace Proofline

/-- What is shown for a document after a dispatch, given what was shown before. -/
def Dispatch.shows (uri : String) (shown : List Diagnostic) : Dispatch → List Diagnostic
  | accepted _ => shown
  | published publication => if publication.uri = uri then publication.diagnostics else shown

/-- What a client of a manager shows for a document: what was last published for it, and
nothing at first. -/
def displayed (number : Nat) (uri : String) (entries : List ChronicleEntry) :
    List Diagnostic :=
  (dispatches number entries).foldl (Dispatch.shows uri) []

/-- What a snapshot has to say of a document when it is announced, if anything. -/
def Snapshot.says? (snapshot : Snapshot) (uri : String) : Option (List Diagnostic) :=
  if snapshot.stage = .unloaded then none else snapshot.diagnostics[uri]?

/-- What the last one of some snapshots said of a document that said anything of it, and
nothing if none did. -/
def lastSaid (uri : String) (snapshots : List Snapshot) : List Diagnostic :=
  snapshots.foldl (fun said snapshot => (snapshot.says? uri).getD said) []

/-- Showing what a table says document by document comes to what it says of one. -/
theorem foldl_toList_eq (uri : String) (table : DiagnosticsByUri) (shown : List Diagnostic) :
    table.toList.foldl (fun shown content => if content.1 = uri then content.2 else shown)
      shown = (table[uri]?).getD shown := by
  have passed (contents : List (String × List Diagnostic)) (shown : List Diagnostic)
      (others : ∀ content ∈ contents, content.1 ≠ uri) :
      contents.foldl (fun shown content => if content.1 = uri then content.2 else shown)
        shown = shown := by
    induction contents generalizing shown with
    | nil => rfl
    | cons content rest ih =>
        rw [List.foldl_cons, if_neg (others content (by simp))]
        exact ih shown fun other mem => others other (by simp [mem])
  cases found : table[uri]? with
  | none =>
      apply passed
      intro content mem same
      rw [Std.ExtTreeMap.mem_toList_iff_getElem?_eq_some, same, found] at mem
      cases mem
  | some diagnostics =>
      have listed := Std.ExtTreeMap.mem_toList_iff_getElem?_eq_some.mpr found
      have distinct := Std.ExtTreeMap.distinct_keys_toList (t := table)
      rcases List.append_of_mem listed with ⟨former, latter, parts⟩
      rw [parts] at distinct ⊢
      have others : ∀ content ∈ latter, content.1 ≠ uri := by
        intro content mem same
        have apart := List.rel_of_pairwise_cons (List.pairwise_append.mp distinct).2.1 mem
        exact apart (by simp [same])
      rw [List.foldl_append, List.foldl_cons, if_pos rfl, passed latter _ others]
      rfl

namespace Announcement

/-- A complete announcement shows what its snapshot has to say. -/
theorem foldl_shows {announcement : Announcement} (faithful : announcement.IsFaithful)
    (passed : ∀ publication ∈ announcement.publications, publication.failure = none)
    (uri : String) (shown : List Diagnostic) :
    announcement.dispatches.foldl (Dispatch.shows uri) shown =
      (announcement.snapshot.says? uri).getD shown := by
  have contents := faithful.complete passed
  calc
    announcement.dispatches.foldl (Dispatch.shows uri) shown =
        (announcement.publications.map Publication.content).foldl
          (fun shown content => if content.1 = uri then content.2 else shown) shown := by
      rw [dispatches, List.foldl_cons, List.foldl_map, List.foldl_map]
      rfl
    _ = announcement.snapshot.announcements.foldl
          (fun shown content => if content.1 = uri then content.2 else shown) shown := by
      rw [contents]
    _ = (announcement.snapshot.says? uri).getD shown := by
      unfold Snapshot.announcements Snapshot.says?
      split
      · rfl
      · exact foldl_toList_eq uri _ shown

/-- Announcements that are not cut off are announcements before and after. -/
theorem split_flatMap {announcements : List Announcement} {former latter : List Dispatch}
    (parts : former ++ latter = announcements.flatMap dispatches)
    (between : ∀ publication, latter.head? ≠ some (.published publication)) :
    ∃ earlier later, announcements = earlier ++ later ∧ former = earlier.flatMap dispatches := by
  induction announcements generalizing former with
  | nil => exact ⟨[], [], rfl, (List.append_eq_nil_iff.mp parts).1⟩
  | cons announcement rest ih =>
      cases former with
      | nil => exact ⟨[], announcement :: rest, rfl, rfl⟩
      | cons first former =>
          rw [List.flatMap_cons] at parts
          rcases List.append_eq_append_iff.mp parts with ⟨missing, whole, latterEq⟩ |
            ⟨following, formerEq, restEq⟩
          · cases missing with
            | nil =>
                refine ⟨[announcement], rest, rfl, ?_⟩
                rw [List.flatMap_singleton, whole, List.append_nil]
            | cons head missing =>
                -- All of an announcement but its beginning is published.
                have published : announcement.publications.map Dispatch.published =
                    former ++ head :: missing := (List.cons.inj whole).2
                have mem : head ∈ announcement.publications.map Dispatch.published := by
                  simp [published]
                rcases List.mem_map.mp mem with ⟨publication, _, rfl⟩
                exact absurd (congrArg List.head? latterEq) (between publication)
          · rcases ih restEq.symm with ⟨earlier, later, rfl, followingEq⟩
            exact ⟨announcement :: earlier, later, rfl, by
              rw [formerEq, followingEq, List.flatMap_cons]⟩

end Announcement

/-- The latest snapshot is the one that was accepted last, or nothing was loaded. -/
theorem History.acceptances_eq {managers : Table Nat Manager} {entries : List ChronicleEntry}
    (history : History ∅ entries managers) (number : Nat) :
    acceptances number entries = [] ∧
        (managers.getD number default).latest.stage = .unloaded ∨
      number ∈ managers ∧ ∃ former, acceptances number entries =
        former ++ [(managers.getD number default).latest] := by
  generalize start : (∅ : Table Nat Manager) = first at history
  induction history with
  | refl =>
      subst start
      exact Or.inl ⟨rfl, rfl⟩
  | @step before after entries event depth earlier next ih =>
      have extended : acceptances number (entries ++ [{ depth, managers := after, event }]) =
          acceptances number entries ++ (event.accepted? number).toList := by
        cases accepted : event.accepted? number <;> simp [acceptances, accepted]
      rw [extended]
      cases accepted : event.accepted? number with
      | some snapshot =>
          have known := next.mem_of_accepted accepted
          refine Or.inr ⟨next.mem known, acceptances number entries, ?_⟩
          rw [next.latest_eq known, accepted]
          rfl
      | none =>
          rw [Option.toList_none, List.append_nil]
          by_cases known : number ∈ before
          · rw [next.latest_eq known, accepted]
            exact ih.imp_right fun last => ⟨next.mem known, last.2⟩
          · exact ih.imp (fun none_accepted => ⟨none_accepted.1, next.stage_of_not_mem known⟩)
              fun last => absurd last.1 known

theorem Event.publisherFailure?_of_dispatch? {number : Nat} {event : Event}
    {publication : Publication}
    (dispatched : event.dispatch? number = some (.published publication)) :
    event.publisherFailure? number = publication.failure := by
  cases event with
  | changed manager change => cases change <;> simp [dispatch?] at dispatched
  | published manager other =>
      rcases Option.ite_none_right_eq_some.mp dispatched with ⟨same, isPublication⟩
      cases isPublication
      exact if_pos same
  | _ => cases dispatched

/-- What the client shows between announcements is what the snapshots accepted so far said
last of a document, as long as the publisher does not fail. -/
theorem AnnouncesFaithfully.displayed_eq {number : Nat} {earlier later : List ChronicleEntry}
    (faithful : AnnouncesFaithfully number (earlier ++ later))
    (between : ∀ publication, (dispatches number later).head? ≠ some (.published publication))
    (passed : ∀ entry ∈ earlier, entry.event.publisherFailure? number = none) (uri : String) :
    displayed number uri earlier = lastSaid uri (acceptances number earlier) := by
  rcases faithful with ⟨announcements, parts, areFaithful⟩
  rw [dispatches, List.filterMap_append] at parts
  rcases Announcement.split_flatMap parts between with ⟨former, latter, rfl, formerEq⟩
  change dispatches number earlier = _ at formerEq
  have completely (announcement : Announcement) (mem : announcement ∈ former) :
      ∀ publication ∈ announcement.publications, publication.failure = none := by
    intro publication published
    have dispatched : Dispatch.published publication ∈ dispatches number earlier := by
      rw [formerEq, List.mem_flatMap]
      exact ⟨announcement, mem, by simp [Announcement.dispatches, published]⟩
    rcases List.mem_filterMap.mp dispatched with ⟨entry, entryMem, isDispatch⟩
    rw [← Event.publisherFailure?_of_dispatch? isDispatch]
    exact passed entry entryMem
  have snapshots : acceptances number earlier = former.map Announcement.snapshot := by
    rw [← filterMap_dispatches, formerEq, List.filterMap_flatMap]
    simp only [Announcement.filterMap_accepted?, List.map_eq_flatMap]
  rw [displayed, lastSaid, formerEq, snapshots, List.foldl_flatMap, List.foldl_map]
  apply List.foldl_ext
  intro shown announcement mem
  exact announcement.foldl_shows (areFaithful announcement (List.mem_append_left _ mem))
    (completely announcement mem) uri shown

/-- What a client shows after some entries, when `latest` is the latest snapshot of a
manager. -/
structure Displays (number : Nat) (entries : List ChronicleEntry) (latest : Snapshot) :
    Prop where
  /-- Of each document the client shows what was last said of it. -/
  said : ∀ uri, displayed number uri entries = lastSaid uri (acceptances number entries)
  /-- That is what the latest snapshot says exactly for the documents it says something of,
  and for those of which nothing was left to show before. -/
  current : latest.stage ≠ .unloaded → ∃ former, acceptances number entries = former ++ [latest] ∧
    ∀ uri, displayed number uri entries = latest.diagnostics.getD uri [] ↔
      (uri ∈ latest.ownDiagnostics ∨ uri ∈ latest.compilation.rootUris) ∨
        lastSaid uri former = []

theorem lastSaid_append_singleton (uri : String) (former : List Snapshot) (latest : Snapshot) :
    lastSaid uri (former ++ [latest]) = (latest.says? uri).getD (lastSaid uri former) := by
  simp [lastSaid]

/-- In every session, between any two announcements, the client shows what the snapshots
accepted so far said last, as long as the publisher does not fail. -/
theorem Session.IsReachable.displays {session : Session} (reachable : session.IsReachable)
    {number : Nat} {entries later : List ChronicleEntry}
    (parts : session.chronicle = entries ++ later)
    (between : ∀ publication, (dispatches number later).head? ≠ some (.published publication))
    (passed : ∀ entry ∈ entries, entry.event.publisherFailure? number = none) :
    Displays number entries ((managersAfter ∅ entries).getD number default).latest := by
  rcases reachable.history with ⟨history, faithful⟩
  rw [parts] at history faithful
  have said := fun uri => (faithful number).displayed_eq between passed uri
  refine ⟨said, fun loaded => ?_⟩
  rcases history.of_append.acceptances_eq number with ⟨_, unloaded⟩ | ⟨_, former, isLast⟩
  · exact absurd unloaded loaded
  · refine ⟨former, isLast, fun uri => ?_⟩
    rw [said uri, isLast, lastSaid_append_singleton, ← Snapshot.mem_diagnostics]
    generalize ((managersAfter ∅ entries).getD number default).latest = latest at loaded
    rw [Snapshot.says?, if_neg loaded, Std.ExtTreeMap.getD_eq_getD_getElem?,
      Std.ExtTreeMap.mem_iff_isSome_getElem?]
    cases latest.diagnostics[uri]? with
    | none => simp
    | some diagnostics => simp

/-- The steps that open the sample project and update it with a warning about another
document, and perhaps to a newer version that has no warnings. -/
def Step.sampleWarning (newer : Bool) : List (Step 0) :=
  let plan : Plan Empty := .succeeding none
  let warning : Report := .warning .parser "w" { outer := { uri := "b" } } "unused"
  [{ request := .openProject .sample, plan },
    { request := .update 0 .sample,
      plan := { plan with parse := { reply := none, reports := [warning] } } }] ++
    if newer then [{ request := .update 0 { Compilation.sample with version := 2 }, plan }] else []

namespace Session

/-- The session after these steps. -/
def warned (newer : Bool) : Session :=
  (run {} 0 (Step.sampleWarning newer)).2

/-- The warning is shown as long as the latest snapshot has it. -/
theorem displays_sample :
    displayed 0 "b" (warned false).chronicle =
      ((warned false).manager 0).latest.diagnostics.getD "b" [] := by
  have loaded : ((warned false).manager 0).latest.stage ≠ .unloaded ∧
      "b" ∈ ((warned false).manager 0).latest.ownDiagnostics ∧
      ∀ entry ∈ (warned false).chronicle, entry.event.publisherFailure? 0 = none := by
    decide +kernel
  have reachable := isReachable_run {} 0 (Step.sampleWarning false)
  change (warned false).IsReachable at reachable
  generalize warned false = session at *
  have displays := reachable.displays (List.append_nil session.chronicle).symm
    (by simp [dispatches]) loaded.2.2
  rw [reachable.history.1.managersAfter_eq] at displays
  rcases displays.current loaded.1 with ⟨_, _, shown⟩
  exact (shown "b").mpr (Or.inl (Or.inl loaded.2.1))

/-- When a newer version has no diagnostics for a document that is not one of its root
documents, the warning of the older version remains displayed. -/
theorem stale_display_sample :
    let session := warned true
    (session.manager 0).latest.stage = .resolved ∧ (session.manager 0).latest.version = 2 ∧
      "b" ∉ (session.manager 0).latest.diagnostics ∧
      (∀ entry ∈ session.chronicle, entry.event.publisherFailure? 0 = none) ∧
      (displayed 0 "b" session.chronicle).length = 1 := by
  decide +kernel

end Session

end Proofline
