import Proofline.Proofs.Descent

/-!
# The lineage of snapshots

A later stage of a version holds the earlier ones it was built from. In a session that
occurs, a manager has accepted each of them in turn before it came to the later one.
-/

namespace Proofline

namespace Snapshot

/-- The parsed version that a snapshot holds. -/
def parsed? : Snapshot → Option Parsed
  | unloaded _ => none
  | parsed snapshot => some snapshot
  | resolved snapshot => some snapshot.parsed
  | verified snapshot => some snapshot.resolved.parsed

/-- The resolved version that a snapshot holds. -/
def resolved? : Snapshot → Option Resolved
  | unloaded _ | parsed _ => none
  | resolved snapshot => some snapshot
  | verified snapshot => some snapshot.resolved

/-- The verified version that a snapshot is. -/
def verified? : Snapshot → Option Verified
  | unloaded _ | parsed _ | resolved _ => none
  | verified snapshot => some snapshot

theorem verified?_eq_some_iff {snapshot : Snapshot} {verified : Verified} :
    snapshot.verified? = some verified ↔ snapshot = .verified verified := by
  cases snapshot <;> simp [verified?]

theorem parsed?_of_unloaded {snapshot : Snapshot} (unloaded : snapshot.stage = .unloaded) :
    snapshot.parsed? = none := by
  cases snapshot with
  | unloaded => rfl
  | parsed | resolved | verified => cases unloaded

theorem resolved?_of_unloaded {snapshot : Snapshot} (unloaded : snapshot.stage = .unloaded) :
    snapshot.resolved? = none := by
  cases snapshot with
  | unloaded => rfl
  | parsed | resolved | verified => cases unloaded

end Snapshot

/-- Whether a manager has accepted a snapshot. -/
def HasAccepted (number : Nat) (snapshot : Snapshot) (entries : List ChronicleEntry) : Prop :=
  ∃ entry ∈ entries, entry.event.accepted? number = some snapshot

theorem HasAccepted.append {number : Nat} {snapshot : Snapshot} {entries : List ChronicleEntry}
    (accepted : HasAccepted number snapshot entries) (later : List ChronicleEntry) :
    HasAccepted number snapshot (entries ++ later) := by
  rcases accepted with ⟨entry, mem, isAccepted⟩
  exact ⟨entry, List.mem_append_left _ mem, isAccepted⟩

/-- Whether a manager has accepted the versions that a snapshot holds, unless nothing is
loaded of it also the snapshot itself. -/
structure Snapshot.HasLineage (number : Nat) (entries : List ChronicleEntry)
    (snapshot : Snapshot) : Prop where
  itself : snapshot.stage ≠ .unloaded → HasAccepted number snapshot entries
  parsed : ∀ parsed, snapshot.parsed? = some parsed → HasAccepted number (.parsed parsed) entries
  resolved : ∀ resolved, snapshot.resolved? = some resolved →
    HasAccepted number (.resolved resolved) entries

namespace Snapshot.HasLineage

variable {number : Nat} {entries : List ChronicleEntry} {snapshot : Snapshot}

theorem of_unloaded (unloaded : snapshot.stage = .unloaded) :
    snapshot.HasLineage number entries where
  itself loaded := absurd unloaded loaded
  parsed parsed isParsed := by simp [parsed?_of_unloaded unloaded] at isParsed
  resolved resolved isResolved := by simp [resolved?_of_unloaded unloaded] at isResolved

theorem append (lineage : snapshot.HasLineage number entries) (later : List ChronicleEntry) :
    snapshot.HasLineage number (entries ++ later) where
  itself loaded := (lineage.itself loaded).append later
  parsed parsed isParsed := (lineage.parsed parsed isParsed).append later
  resolved resolved isResolved := (lineage.resolved resolved isResolved).append later

end Snapshot.HasLineage

/-- A snapshot that is accepted goes on from the latest one. -/
theorem Descends.hasLineage {number : Nat} {past : List ChronicleEntry} {entry : ChronicleEntry}
    {before after : Snapshot} (descends : Descends number past entry.event before after)
    (lineage : before.HasLineage number past) : after.HasLineage number (past ++ [entry]) := by
  cases descends with
  | kept _ same => exact same ▸ lineage.append [entry]
  | opened _ _ unloaded => exact .of_unloaded unloaded
  | accepted isAccepted _ grounds =>
      have accepted : HasAccepted number after (past ++ [entry]) :=
        ⟨entry, List.mem_append_right _ (List.mem_singleton_self entry), isAccepted⟩
      cases after with
      | unloaded snapshot => exact .of_unloaded rfl
      | parsed snapshot =>
          refine ⟨fun _ => accepted, ?_, by simp [Snapshot.resolved?]⟩
          rintro _ ⟨⟩
          exact accepted
      | resolved snapshot =>
          obtain ⟨rfl, _⟩ := grounds
          refine ⟨fun _ => accepted, ?_, ?_⟩
          · rintro _ ⟨⟩
            exact (lineage.parsed _ rfl).append [entry]
          · rintro _ ⟨⟩
            exact accepted
      | verified snapshot =>
          cases grounds with
          | start | withResult =>
              refine ⟨fun _ => accepted, ?_, ?_⟩
              · rintro _ ⟨⟩
                exact (lineage.parsed _ rfl).append [entry]
              · rintro _ ⟨⟩
                exact (lineage.resolved _ rfl).append [entry]

namespace Session.Occurs

variable {session : Session}

/-- The latest snapshot of a manager has a lineage. -/
theorem hasLineage (occurs : session.Occurs) (number : Nat) :
    ∀ past rest, session.chronicle = past ++ rest →
      (latestAfter number past).HasLineage number past := by
  intro past
  induction past using List.reverseRecOn with
  | nil =>
      intro _ _
      rw [latestAfter_nil]
      exact .of_unloaded rfl
  | append_singleton past entry ih =>
      intro rest parts
      rw [List.append_assoc, List.singleton_append] at parts
      rw [latestAfter_append_singleton]
      exact (occurs.descends parts number).hasLineage (ih _ parts)

/-- Whatever was the latest snapshot of a manager had a lineage then. -/
theorem hasLineage_of_seen (occurs : session.Occurs) {number : Nat}
    {past rest : List ChronicleEntry} (parts : session.chronicle = past ++ rest)
    {snapshot : Snapshot} (seen : HasSeen number snapshot past) :
    snapshot.HasLineage number past := by
  rcases seen with ⟨entry, mem, rfl⟩
  rcases List.append_of_mem mem with ⟨former, latter, rfl⟩
  have split : session.chronicle = (former ++ [entry]) ++ (latter ++ rest) := by simp [parts]
  have lineage := (occurs.hasLineage number _ _ split).append latter
  rw [latestAfter_append_singleton] at lineage
  simpa using lineage

theorem hasLineage_latest (occurs : session.Occurs) (number : Nat) :
    (session.manager number).latest.HasLineage number session.chronicle := by
  rw [← occurs.latestAfter_chronicle number]
  exact occurs.hasLineage number _ [] (by simp)

end Session.Occurs

namespace Session.Arises

variable {session : Session} {number : Nat} {past later : List ChronicleEntry}
  {entry : ChronicleEntry}

/-- Each entry has its warrant in the entries before it. -/
theorem hasWarrant (arises : session.Arises)
    (parts : session.chronicle = past ++ entry :: later) :
    entry.event.HasWarrant session.options past :=
  arises.warranted past entry later parts

theorem hasWarrant_of_accepted (arises : session.Arises)
    (parts : session.chronicle = past ++ entry :: later) {snapshot : Snapshot}
    (accepted : entry.event.accepted? number = some snapshot) :
    snapshot.HasWarrant number session.options past := by
  have warrant := arises.hasWarrant parts
  rwa [Event.eq_of_accepted? accepted] at warrant

end Session.Arises

end Proofline
