import Proofline.Proofs.PublicationOrder

/-!
# How snapshots descend from one another

In a session that occurs, the latest snapshot of a manager changes only when another one
is accepted, which then does not precede it and has its grounds in what happened before.
Facts about all snapshots of a manager follow by going through the chronicle entry by
entry.
-/

namespace Proofline

theorem split_of_getElem? {α : Type} {values : List α} {index : Nat} {value : α}
    (found : values[index]? = some value) :
    values = values.take index ++ value :: values.drop (index + 1) := by
  rcases List.getElem?_eq_some_iff.mp found with ⟨bound, rfl⟩
  rw [← List.drop_eq_getElem_cons, List.take_append_drop]

/-- The latest snapshot of a manager after some entries. -/
def latestAfter (number : Nat) (entries : List ChronicleEntry) : Snapshot :=
  ((managersAfter ∅ entries).getD number default).latest

/-- At the start nothing is loaded of a manager. -/
theorem latestAfter_nil (number : Nat) : latestAfter number [] = default := by
  simp [latestAfter, managersAfter]
  rfl

theorem latestAfter_append_singleton (number : Nat) (entries : List ChronicleEntry)
    (entry : ChronicleEntry) : latestAfter number (entries ++ [entry]) = entry.latest number := by
  simp [latestAfter, managersAfter, ChronicleEntry.latest]

/-- What holds of the latest snapshot after some entries, and is handed on by each of the
entries that follow, holds after any part of these. -/
theorem latestAfter_induction {number : Nat} {first later : List ChronicleEntry}
    {fact : Snapshot → Prop} (base : fact (latestAfter number first))
    (step : ∀ former entry rest, later = former ++ entry :: rest →
      fact (latestAfter number (first ++ former)) → fact (entry.latest number)) :
    ∀ former rest, later = former ++ rest → fact (latestAfter number (first ++ former)) := by
  intro former
  induction former using List.reverseRecOn with
  | nil =>
      intro rest _
      rwa [List.append_nil]
  | append_singleton former entry ih =>
      intro rest parts
      rw [List.append_assoc, List.singleton_append] at parts
      rw [← List.append_assoc, latestAfter_append_singleton]
      exact step former entry rest parts (ih (entry :: rest) parts)

/-- How the latest snapshot of a manager after an event comes from the one before it. -/
inductive Descends (number : Nat) (past : List ChronicleEntry) (event : Event)
    (before after : Snapshot) : Prop
  | kept (silent : event.accepted? number = none) (same : after = before)
  /-- The manager was opened; nothing is loaded of it. -/
  | opened (silent : event.accepted? number = none) (unknown : number ∉ managersAfter ∅ past)
      (unloaded : after.stage = .unloaded)
  | accepted (isAccepted : event.accepted? number = some after)
      (current : ¬after.Precedes before) (grounds : after.HasGrounds number past before)

/-- The version of the latest snapshot does not decrease. -/
theorem Descends.version_le {number : Nat} {past : List ChronicleEntry} {event : Event}
    {before after : Snapshot} (descends : Descends number past event before after)
    (known : number ∈ managersAfter ∅ past) : before.version ≤ after.version := by
  cases descends with
  | kept _ same => exact same ▸ Int.le_refl _
  | opened _ unknown _ => exact absurd known unknown
  | accepted _ current _ =>
      unfold Snapshot.Precedes at current
      omega

/-- A snapshot is accepted at one kind of event. -/
theorem Event.eq_of_accepted? {number : Nat} {event : Event} {snapshot : Snapshot}
    (accepted : event.accepted? number = some snapshot) :
    event = .changed number (.accepted snapshot) := by
  unfold accepted? at accepted
  split at accepted
  · rcases Option.ite_none_right_eq_some.mp accepted with ⟨rfl, isSnapshot⟩
    rw [Option.some.inj isSnapshot]
  · contradiction

/-- The last entry of a history follows the managers after the entries before it. -/
theorem History.last_step {first second : Table Nat Manager} {earlier : List ChronicleEntry}
    {entry : ChronicleEntry} (history : History first (earlier ++ [entry]) second) :
    Successor (managersAfter first earlier) entry.event entry.managers := by
  generalize parts : earlier ++ [entry] = entries at history
  cases history with
  | refl => simp at parts
  | step depth before next =>
      obtain ⟨rfl, same⟩ := List.append_inj' parts rfl
      obtain rfl := List.singleton_inj.mp same
      rw [before.managersAfter_eq]
      exact next

namespace Session.Occurs

variable {session : Session} {earlier later : List ChronicleEntry} {entry : ChronicleEntry}

theorem successor (occurs : session.Occurs)
    (parts : session.chronicle = earlier ++ entry :: later) :
    Successor (managersAfter ∅ earlier) entry.event entry.managers :=
  (occurs.isReachable.history.1.split parts).1.last_step

theorem hasGrounds (occurs : session.Occurs)
    (parts : session.chronicle = earlier ++ entry :: later) :
    entry.event.HasGrounds earlier (managersAfter ∅ earlier) :=
  occurs.grounded earlier entry later parts

/-- After the whole chronicle the managers are as they are now. -/
theorem latestAfter_chronicle (occurs : session.Occurs) (number : Nat) :
    latestAfter number session.chronicle = (session.manager number).latest := by
  rw [latestAfter, occurs.isReachable.history.1.managersAfter_eq]
  rfl

/-- Most events leave the latest snapshots as they are. -/
theorem latest_of_spares (occurs : session.Occurs)
    (parts : session.chronicle = earlier ++ entry :: later)
    (spares : entry.event.sparesManagers = true) (number : Nat) :
    entry.latest number = latestAfter number earlier := by
  rw [ChronicleEntry.latest, (occurs.successor parts).eq_of_spares spares]
  rfl

/-- A manager that exists goes on to exist. -/
theorem mem_managersAfter (occurs : session.Occurs) {number : Nat}
    {first former rest : List ChronicleEntry} (parts : session.chronicle = first ++ former ++ rest)
    (known : number ∈ managersAfter ∅ first) : number ∈ managersAfter ∅ (first ++ former) := by
  induction former using List.reverseRecOn generalizing rest with
  | nil => rwa [List.append_nil]
  | append_singleton former entry ih =>
      have split : session.chronicle = first ++ former ++ entry :: rest := by simpa using parts
      have next := (occurs.successor split).mem (ih split)
      rw [← List.append_assoc, managersAfter_append]
      exact next

theorem descends (occurs : session.Occurs) (parts : session.chronicle = earlier ++ entry :: later)
    (number : Nat) :
    Descends number earlier entry.event (latestAfter number earlier) (entry.latest number) := by
  have next := occurs.successor parts
  cases accepted : entry.event.accepted? number with
  | some snapshot =>
      have known := next.mem_of_accepted accepted
      have isLatest : entry.latest number = snapshot := by
        rw [ChronicleEntry.latest, next.latest_eq known, accepted]
        rfl
      have grounds := occurs.hasGrounds parts
      rw [Event.eq_of_accepted? accepted] at grounds
      refine .accepted (isLatest ▸ accepted) (next.not_precedes known) ?_
      rw [isLatest]
      exact grounds
  | none =>
      by_cases known : number ∈ managersAfter ∅ earlier
      · refine .kept accepted ?_
        rw [ChronicleEntry.latest, next.latest_eq known, accepted]
        rfl
      · exact .opened accepted known (next.stage_of_not_mem known)

/-- What is handed on to whatever descends holds of every latest snapshot if it holds at the
start. -/
theorem latestAfter_of_descends (occurs : session.Occurs) (number : Nat) {fact : Snapshot → Prop}
    (base : fact default)
    (step : ∀ {past : List ChronicleEntry} {event : Event} {before after : Snapshot},
      Descends number past event before after → fact before → fact after)
    {past rest : List ChronicleEntry} (parts : session.chronicle = past ++ rest) :
    fact (latestAfter number past) := by
  rw [← List.nil_append session.chronicle] at parts
  rw [← latestAfter_nil number] at base
  exact latestAfter_induction base
    (fun _ _ _ split held => step (occurs.descends split number) held) past rest parts

/-- What is handed on while a manager exists holds of every latest snapshot from the time it
holds of one. -/
theorem latestAfter_of_known (occurs : session.Occurs) {number : Nat}
    {first later : List ChronicleEntry} (parts : session.chronicle = first ++ later)
    (known : number ∈ managersAfter ∅ first) {fact : Snapshot → Prop}
    (base : fact (latestAfter number first))
    (step : ∀ {past : List ChronicleEntry} {event : Event} {before after : Snapshot},
      Descends number past event before after → number ∈ managersAfter ∅ past →
        fact before → fact after) :
    ∀ former rest, later = former ++ rest → fact (latestAfter number (first ++ former)) := by
  apply latestAfter_induction base
  rintro former entry rest rfl held
  rw [← List.append_assoc] at parts
  exact step (occurs.descends parts number) (occurs.mem_managersAfter parts known) held

end Session.Occurs

end Proofline
