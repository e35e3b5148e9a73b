import Proofline.Proofs.Contract
import Proofline.Proofs.Grounds
import Proofline.Proofs.Reports

/-!
# The warrants of events

Parsing and resolution report to a journal, and what they leave behind is warranted by
what was reported until then. The resolver is called for programs without errors only, a
snapshot shows what its journal holds, and units are collected for programs that have no
error from before the late subsystems. What is recorded as verified was the latest
snapshot once. All this holds along every chronicle of a session that keeps its journals.
-/

namespace Proofline

/-- The journal that a project has after some entries. -/
def journalAfter (options : Options) (project : String) (number : Nat)
    (entries : List ChronicleEntry) : Journal :=
  .ofReports options project (reportsTo number entries)

/-- Whether some entries tell that a snapshot was the latest one of a manager. -/
def HasSeen (number : Nat) (snapshot : Snapshot) (entries : List ChronicleEntry) : Prop :=
  ∃ entry ∈ entries, entry.latest number = snapshot

theorem HasSeen.append {number : Nat} {snapshot : Snapshot} {entries : List ChronicleEntry}
    (seen : HasSeen number snapshot entries) (later : List ChronicleEntry) :
    HasSeen number snapshot (entries ++ later) := by
  rcases seen with ⟨entry, mem, isLatest⟩
  exact ⟨entry, List.mem_append_left _ mem, isLatest⟩

/-- Whether the resolver was called for a parsed version while `latest` was the latest
snapshot of a manager. -/
def HasBegunResolving (number : Nat) (latest : Snapshot) (parsed : Parsed)
    (entries : List ChronicleEntry) : Prop :=
  ∃ entry ∈ entries, entry.latest number = latest ∧
    entry.event = .resolving parsed.compilation.project parsed.program.journal

theorem HasBegunResolving.append {number : Nat} {latest : Snapshot} {parsed : Parsed}
    {entries : List ChronicleEntry} (begun : HasBegunResolving number latest parsed entries)
    (later : List ChronicleEntry) : HasBegunResolving number latest parsed (entries ++ later) := by
  rcases begun with ⟨entry, mem, isBegun⟩
  exact ⟨entry, List.mem_append_left _ mem, isBegun⟩

/-- Whether units are those of a program, or none, given whether errors forbid to collect
them. -/
def Resolved.HasUnits (resolved : Resolved) (forbidden : Prop) : Prop :=
  resolved.units = [] ∨ ¬forbidden ∧
    Declaration.collectUnits? resolved.parsed.program.module resolved.compilation false =
      some resolved.units

/-- The warrant of a resolved version of a manager. -/
structure Resolved.HasWarrant (number : Nat) (options : Options) (past : List ChronicleEntry)
    (resolved : Resolved) : Prop where
  begun : HasBegunResolving number (.parsed resolved.parsed) resolved.parsed past
  diagnostics : resolved.diagnostics =
    (journalAfter options resolved.compilation.project resolved.parsed.program.journal past).byUri
  units : resolved.HasUnits (∃ report ∈ reportsTo resolved.parsed.program.journal past,
    report.isEarlyError options = true)

/-- The warrant of a snapshot that a manager accepts. -/
def Snapshot.HasWarrant (number : Nat) (options : Options) (past : List ChronicleEntry) :
    Snapshot → Prop
  | .parsed snapshot => snapshot.diagnostics =
      (journalAfter options snapshot.compilation.project snapshot.program.journal past).byUri
  | .resolved snapshot => snapshot.HasWarrant number options past
  | .unloaded _ | .verified _ => True

/-- The warrant of an event in what happened before it. -/
def Event.HasWarrant (options : Options) (past : List ChronicleEntry) : Event → Prop
  | .resolving _ journal => ∀ report ∈ reportsTo journal past, report.isError options = false
  | .changed number (.accepted snapshot) => snapshot.HasWarrant number options past
  | .changed number (.verified _ verified) => HasSeen number (.verified verified) past
  | _ => True

/-- Whether each of some entries has its warrant in the entries before it and in `past`. -/
def Warranted (options : Options) (past entries : List ChronicleEntry) : Prop :=
  ∀ earlier entry later, entries = earlier ++ entry :: later →
    entry.event.HasWarrant options (past ++ earlier)

namespace Warranted

variable {options : Options} {past entries later : List ChronicleEntry}

theorem of_forall (warrants : ∀ entry ∈ entries, ∀ past, entry.event.HasWarrant options past) :
    Warranted options past entries :=
  Successively.of_forall warrants

theorem append (first : Warranted options past entries)
    (second : Warranted options (past ++ entries) later) :
    Warranted options past (entries ++ later) :=
  @Successively.append (fun past entry => entry.event.HasWarrant options past) _ _ _ first second

/-- One entry after another one or at the start. -/
theorem single {entry : ChronicleEntry} (warrant : entry.event.HasWarrant options past) :
    Warranted options past [entry] :=
  @Successively.single (fun past entry => entry.event.HasWarrant options past) _ _ warrant

end Warranted

/-- Whether a parsed version shows what its journal holds. -/
structure Parsed.MatchesJournal (session : Session) (parsed : Parsed) : Prop where
  opened : session.HasJournal parsed.program.journal parsed.compilation.project
  diagnostics : parsed.diagnostics = (session.journal parsed.program.journal).byUri

/-- Whether a resolved version, which the resolver was called for while `latest` was the latest
snapshot of a manager, shows what its journal holds and has units as the journal allows. -/
structure Resolved.MatchesJournal (number : Nat) (latest : Snapshot) (session : Session)
    (resolved : Resolved) : Prop where
  begun : HasBegunResolving number latest resolved.parsed session.chronicle
  diagnostics : resolved.diagnostics = (session.journal resolved.parsed.program.journal).byUri
  units : resolved.HasUnits
    ((session.journal resolved.parsed.program.journal).tally.hasEarlyErrors = true)

namespace Session

/-- Whether the journals of a session hold what was reported to them. -/
structure KeepsJournals (session : Session) : Prop where
  eq_journalAfter : ∀ {number : Nat} {journal : Journal},
    session.journals[number]? = some journal →
      journal = journalAfter session.options journal.project number session.chronicle
  /-- Nothing is reported to a journal before it is opened. -/
  unopened : ∀ {number : Nat}, session.journals[number]? = none →
    reportsTo number session.chronicle = []

namespace KeepsJournals

variable {session : Session}

/-- A journal that was opened tells what was reported to it. -/
theorem journal_eq (keeps : session.KeepsJournals) {number : Nat} {project : String}
    (opened : session.HasJournal number project) :
    session.journal number =
      journalAfter session.options project number session.chronicle := by
  rcases Option.map_eq_some_iff.mp opened with ⟨journal, found, rfl⟩
  rw [Session.journal, List.getD_eq_getElem?_getD, found]
  exact keeps.eq_journalAfter found

/-- Where a journal has no errors, none were reported. -/
theorem isError_eq_false (keeps : session.KeepsJournals) {number : Nat}
    (clean : (session.journal number).tally.hasErrors = false) :
    ∀ report ∈ reportsTo number session.chronicle, report.isError session.options = false := by
  cases found : session.journals[number]? with
  | none => simp [keeps.unopened found]
  | some journal =>
      have opened : session.HasJournal number journal.project := by simp [HasJournal, found]
      rw [keeps.journal_eq opened] at clean
      intro report mem
      by_contra isError
      rw [Bool.not_eq_false] at isError
      have tells := Journal.tells_ofReports session.options journal.project
        (reportsTo number session.chronicle)
      have hasErrors := tells.hasErrors_iff.mpr ⟨report, mem, isError⟩
      rw [journalAfter, hasErrors] at clean
      contradiction

/-- A parsed version that shows what its journal holds is warranted. -/
theorem hasWarrant_parsed (keeps : session.KeepsJournals) {number : Nat} {parsed : Parsed}
    (holds : parsed.MatchesJournal session) :
    (Snapshot.parsed parsed).HasWarrant number session.options session.chronicle := by
  rw [Snapshot.HasWarrant, ← keeps.journal_eq holds.opened]
  exact holds.diagnostics

/-- A resolved version that shows what its journal holds is warranted. -/
theorem hasWarrant_resolved (keeps : session.KeepsJournals) {number : Nat} {resolved : Resolved}
    (opened : session.HasJournal resolved.parsed.program.journal resolved.compilation.project)
    (holds : resolved.MatchesJournal number (.parsed resolved.parsed) session) :
    (Snapshot.resolved resolved).HasWarrant number session.options session.chronicle where
  begun := holds.begun
  diagnostics := by
    rw [← keeps.journal_eq opened]
    exact holds.diagnostics
  units := by
    have tells := Journal.tells_ofReports session.options resolved.compilation.project
      (reportsTo resolved.parsed.program.journal session.chronicle)
    rw [← tells.hasEarlyErrors_iff, ← journalAfter, ← keeps.journal_eq opened]
    exact holds.units

end KeepsJournals

theorem options_report (session : Session) (number : Nat) (given : Report) :
    (session.report number given).options = session.options := by
  unfold Session.report
  split <;> rfl

theorem getElem?_report (session : Session) (number other : Nat) (given : Report) :
    (session.report number given).journals[other]? = (session.journals[other]?).map fun journal =>
      if number = other then journal.report given else journal := by
  unfold Session.report
  split
  · exact List.getElem?_modify ..
  · rename_i unopened
    cases found : session.journals[other]? with
    | none => rfl
    | some journal =>
        have below := (List.getElem?_eq_some_iff.mp found).1
        have ne : number ≠ other := by omega
        simp [ne]

theorem reportsTo_report (session : Session) (number other : Nat) (given : Report) :
    reportsTo other (session.report number given).chronicle =
      reportsTo other session.chronicle ++
        if number = other ∧ number < session.journals.length then [given] else [] := by
  unfold Session.report
  split
  · rename_i opened
    rw [Session.enter, reportsTo_append]
    by_cases same : number = other
    · simp [reportsTo, Event.reportTo?, same, same ▸ opened]
    · simp [reportsTo, Event.reportTo?, same]
  · rename_i unopened
    simp [unopened]

/-- `after` continues `before` without changing a journal that was opened except by what is
reported to it, and what happens in between is warranted. -/
structure Records (before after : Session) : Prop where
  options : after.options = before.options
  hasJournal : ∀ {number project}, before.HasJournal number project →
    after.HasJournal number project
  keepsJournals : before.KeepsJournals → after.KeepsJournals
  warranted : ∃ entries, after.chronicle = before.chronicle ++ entries ∧
    (before.KeepsJournals → Warranted before.options before.chronicle entries)

namespace Records

variable {first second third before after session : Session}

theorem trans (earlier : first.Records second) (later : second.Records third) :
    first.Records third where
  options := later.options.trans earlier.options
  hasJournal opened := later.hasJournal (earlier.hasJournal opened)
  keepsJournals keeps := later.keepsJournals (earlier.keepsJournals keeps)
  warranted := by
    rcases earlier.warranted with ⟨former, formerEq, formerWarranted⟩
    rcases later.warranted with ⟨latter, latterEq, latterWarranted⟩
    refine ⟨former ++ latter, by rw [latterEq, formerEq, List.append_assoc], fun keeps => ?_⟩
    apply (formerWarranted keeps).append
    rw [← formerEq, ← earlier.options]
    exact latterWarranted (earlier.keepsJournals keeps)

/-- Nothing is reported. -/
theorem of_unreported (options : after.options = before.options)
    (journals : after.journals = before.journals) {entries : List ChronicleEntry}
    (chronicleEq : after.chronicle = before.chronicle ++ entries)
    (unreported : ∀ number, reportsTo number entries = [])
    (warranted : before.KeepsJournals → Warranted before.options before.chronicle entries) :
    before.Records after where
  options := options
  hasJournal opened := by rwa [HasJournal, journals]
  keepsJournals keeps := by
    constructor
    · intro number journal opened
      rw [journals] at opened
      rw [options, chronicleEq, journalAfter, reportsTo_append, unreported, List.append_nil]
      exact keeps.eq_journalAfter opened
    · intro number unopened
      rw [journals] at unopened
      rw [chronicleEq, reportsTo_append, unreported, List.append_nil]
      exact keeps.unopened unopened
  warranted := ⟨entries, chronicleEq, warranted⟩

/-- Neither the journals nor the chronicle change. -/
theorem of_surroundings (options : after.options = before.options)
    (journals : after.journals = before.journals) (chronicle : after.chronicle = before.chronicle) :
    before.Records after := by
  have nothing : after.chronicle = before.chronicle ++ [] := by simpa using chronicle
  exact .of_unreported options journals nothing (fun _ => rfl) fun _ => .of_forall (by simp)

theorem enter {events : List Event}
    (unreported : ∀ event ∈ events, ∀ number, event.reportTo? number = none)
    (warrants : ∀ event ∈ events, ∀ options past, event.HasWarrant options past) :
    session.Records (session.enter events) := by
  refine .of_unreported rfl rfl rfl (fun number => ?_) fun _ => .of_forall ?_
  · simpa [reportsTo] using fun event mem => unreported event mem number
  · intro entry mem
    rcases List.mem_map.mp mem with ⟨event, isEvent, rfl⟩
    exact warrants event isEvent _

/-- The resolver is called. -/
theorem enter_resolving {project : String} {number : Nat}
    (clean : (session.journal number).tally.hasErrors = false) :
    session.Records (session.enter [.resolving project number]) :=
  .of_unreported rfl rfl rfl (fun _ => rfl) fun keeps => .single (keeps.isError_eq_false clean)

theorem change {number : Nat} {change : Change}
    (warrant : session.KeepsJournals →
      (Event.changed number change).HasWarrant session.options session.chronicle) :
    session.Records (session.change number change) :=
  .of_unreported rfl rfl rfl (fun _ => rfl) fun keeps => .single (warrant keeps)

/-- A snapshot becomes the latest one and is announced. -/
theorem accept {number : Nat} {snapshot : Snapshot} (publications : List Publication)
    (warrant : session.KeepsJournals →
      snapshot.HasWarrant number session.options session.chronicle) :
    session.Records
      ((session.change number (.accepted snapshot)).enter
        (publications.map (.published number))) := by
  have accepted : session.Records (session.change number (.accepted snapshot)) :=
    .change fun keeps => warrant keeps
  refine accepted.trans (.enter ?_ ?_)
  · simp [Event.reportTo?]
  · simp [Event.HasWarrant]

theorem openJournal (session : Session) (project : String) :
    session.Records (session.openJournal project) where
  options := rfl
  hasJournal {number _} opened := by
    have below : number < session.journals.length := by
      rcases Option.map_eq_some_iff.mp opened with ⟨_, found, _⟩
      exact (List.getElem?_eq_some_iff.mp found).1
    rwa [HasJournal, Session.openJournal, List.getElem?_append_left below]
  keepsJournals keeps := by
    constructor
    · intro number journal opened
      rw [Session.openJournal, List.getElem?_append] at opened
      split at opened
      · exact keeps.eq_journalAfter opened
      · rename_i fresh
        have unopened := keeps.unopened (List.getElem?_eq_none (Nat.not_lt.mp fresh))
        obtain rfl := List.mem_singleton.mp (List.mem_of_getElem? opened)
        rw [journalAfter, Session.openJournal, unopened]
        rfl
    · intro number unopened
      apply keeps.unopened
      rw [List.getElem?_eq_none_iff] at unopened ⊢
      simp only [Session.openJournal, List.length_append] at unopened
      omega
  warranted := ⟨[], by simp [Session.openJournal], fun _ => .of_forall (by simp)⟩

theorem report (session : Session) (number : Nat) (given : Report) :
    session.Records (session.report number given) where
  options := session.options_report number given
  hasJournal {other project} opened := by
    rw [HasJournal, getElem?_report]
    rw [HasJournal] at opened
    cases found : session.journals[other]? with
    | none => simp [found] at opened
    | some journal =>
        rw [found] at opened
        simp only [Option.map_some] at opened ⊢
        split
        · rwa [Journal.project_report]
        · exact opened
  keepsJournals keeps := by
    constructor
    · intro other journal opened
      rw [getElem?_report] at opened
      rcases Option.map_eq_some_iff.mp opened with ⟨former, found, rfl⟩
      have kept := keeps.eq_journalAfter found
      rw [options_report, journalAfter, reportsTo_report]
      by_cases same : number = other
      · subst same
        have below := (List.getElem?_eq_some_iff.mp found).1
        rw [if_pos rfl, if_pos ⟨rfl, below⟩, Journal.ofReports_append_singleton,
          Journal.project_report, ← journalAfter, ← kept]
      · rw [if_neg same, if_neg (fun both => same both.1), List.append_nil]
        exact kept
    · intro other unopened
      rw [getElem?_report, Option.map_eq_none_iff] at unopened
      have beyond := List.getElem?_eq_none_iff.mp unopened
      rw [reportsTo_report, keeps.unopened unopened, if_neg]
      · rfl
      · rintro ⟨rfl, below⟩
        omega
  warranted := by
    unfold Session.report
    split
    · exact ⟨_, rfl, fun _ => .single trivial⟩
    · exact ⟨[], by simp, fun _ => .of_forall (by simp)⟩

theorem openProject (compilation : Compilation) :
    session.Records (session.openProject compilation).1 := by
  unfold Session.openProject
  split
  · exact .of_surroundings rfl rfl rfl
  · exact .of_unreported rfl rfl rfl (fun _ => rfl) fun _ => .single trivial

end Records

end Session

end Proofline
