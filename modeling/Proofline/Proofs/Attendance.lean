import Proofline.Proofs.Grounds

/-!
# Updates in progress

Updates of a manager nest: one that begins during another one ends before it. A manager
counts those in progress, and what is parsed only is looked after by one of them, unless
it is settled. Whoever waits for the latest version therefore waits for an update that
goes on.
-/

namespace Proofline

/-- The versions of the updates of a manager that are in progress after an event, the
newest first, given those before. -/
def Event.updatesAfter (number : Nat) (updates : List Int) : Event → List Int
  | .changed manager (.updateBegun version) =>
      if manager = number then version :: updates else updates
  | .changed manager (.updateEnded version _) =>
      if manager = number then updates.erase version else updates
  | _ => updates

/-- The versions of the updates of a manager that are in progress after some entries,
given those before. -/
def updatesSince (number : Nat) (updates : List Int) (entries : List ChronicleEntry) :
    List Int :=
  entries.foldl (fun updates entry => entry.event.updatesAfter number updates) updates

/-- The versions of the updates of a manager that are in progress according to a
chronicle. -/
def updatesInProgress (number : Nat) (entries : List ChronicleEntry) : List Int :=
  updatesSince number [] entries

theorem updatesSince_append (number : Nat) (updates : List Int)
    (entries later : List ChronicleEntry) :
    updatesSince number updates (entries ++ later) =
      updatesSince number (updatesSince number updates entries) later :=
  List.foldl_append

theorem updatesInProgress_append (number : Nat) (entries later : List ChronicleEntry) :
    updatesInProgress number (entries ++ later) =
      updatesSince number (updatesInProgress number entries) later :=
  updatesSince_append number [] entries later

theorem updatesSince_eq_self {number : Nat} {updates : List Int} {entries : List ChronicleEntry}
    (same : ∀ entry ∈ entries, ∀ updates, entry.event.updatesAfter number updates = updates) :
    updatesSince number updates entries = updates := by
  induction entries with
  | nil => rfl
  | cons entry rest ih =>
      rw [updatesSince, List.foldl_cons, same entry (by simp)]
      exact ih fun other mem => same other (by simp [mem])

namespace Manager

/-- Whether a manager counts the updates in progress, and a version that is parsed only is
settled or the version of one of them. -/
structure IsAttended (manager : Manager) (updates : List Int) : Prop where
  inFlight : manager.inFlight = updates.length
  parsed : manager.latest.stage = .parsed →
    manager.latest.version ≤ manager.settled ∨ manager.latest.version ∈ updates

theorem isAttended_default : IsAttended default [] where
  inFlight := rfl
  parsed isParsed := by cases isParsed

namespace IsAttended

variable {manager : Manager} {updates : List Int}

theorem begun (attended : manager.IsAttended updates) (version : Int) :
    (manager.after (.updateBegun version)).IsAttended (version :: updates) where
  inFlight := congrArg (· + 1) attended.inFlight
  parsed isParsed := (attended.parsed isParsed).imp_right (List.mem_cons_of_mem version)

/-- An update ends that leaves its version settled or does not leave it parsed only. -/
theorem ended {version : Int} (attended : manager.IsAttended (version :: updates))
    (status : UpdateStatus)
    (concluded : manager.latest.stage = .parsed → manager.latest.version = version →
      version ≤ manager.settled ∨ version ∈ updates) :
    (manager.after (.updateEnded version status)).IsAttended updates where
  inFlight := by
    simp [Manager.after, attended.inFlight]
  parsed isParsed := by
    rcases attended.parsed isParsed with settled | attending
    · exact Or.inl settled
    · rcases List.mem_cons.mp attending with same | attending
      · exact same ▸ concluded isParsed same
      · exact Or.inr attending

/-- Whatever else happens to a manager, it counts the same updates and settles no fewer
versions. -/
theorem of_le {after : Manager} (attended : manager.IsAttended updates)
    (inFlight : after.inFlight = manager.inFlight) (settled : manager.settled ≤ after.settled)
    (latest : after.latest = manager.latest) : after.IsAttended updates where
  inFlight := inFlight.trans attended.inFlight
  parsed isParsed := by
    rw [latest] at isParsed ⊢
    exact (attended.parsed isParsed).imp_left (Int.le_trans · settled)

theorem verificationEnded (attended : manager.IsAttended updates) (version : Int) :
    (manager.after (.verificationEnded version)).IsAttended updates := by
  rw [after]
  split
  · exact attended.of_le rfl (Int.le_refl _) rfl
  · exact attended

theorem settle (attended : manager.IsAttended updates) (version : Int)
    (verified : Option Verified) : (manager.settle version verified).IsAttended updates :=
  attended.of_le rfl (Int.le_max_left _ _) rfl

theorem accepted (attended : manager.IsAttended updates) {snapshot : Snapshot}
    (attending : snapshot.stage = .parsed → snapshot.version ∈ updates) :
    (manager.after (.accepted snapshot)).IsAttended updates where
  inFlight := attended.inFlight
  parsed isParsed := Or.inr (attending isParsed)

end IsAttended

end Manager

/-- Whether a manager is attended after each of some entries, given the updates that are
in progress before them. -/
def StaysAttended (number : Nat) : List Int → List ChronicleEntry → Prop
  | _, [] => True
  | updates, entry :: rest =>
      (entry.managers.getD number default).IsAttended (entry.event.updatesAfter number updates) ∧
        StaysAttended number (entry.event.updatesAfter number updates) rest

namespace StaysAttended

variable {number : Nat} {updates : List Int} {entries later : List ChronicleEntry}

theorem append (first : StaysAttended number updates entries)
    (second : StaysAttended number (updatesSince number updates entries) later) :
    StaysAttended number updates (entries ++ later) := by
  induction entries generalizing updates with
  | nil => exact second
  | cons entry rest ih => exact ⟨first.1, ih first.2 second⟩

/-- What holds after every entry holds after each one. -/
theorem of_split {earlier : List ChronicleEntry} {entry : ChronicleEntry}
    (stays : StaysAttended number updates (earlier ++ entry :: later)) :
    (entry.managers.getD number default).IsAttended
      (updatesSince number updates (earlier ++ [entry])) := by
  induction earlier generalizing updates with
  | nil => exact stays.1
  | cons first rest ih => exact ih stays.2

/-- No update begins or ends. -/
theorem of_same
    (same : ∀ entry ∈ entries, ∀ updates, entry.event.updatesAfter number updates = updates)
    (attended : ∀ entry ∈ entries,
      (entry.managers.getD number default).IsAttended updates) :
    StaysAttended number updates entries := by
  induction entries with
  | nil => trivial
  | cons entry rest ih =>
      rw [StaysAttended, same entry (by simp)]
      exact ⟨attended entry (by simp), ih (fun other mem => same other (by simp [mem]))
        fun other mem => attended other (by simp [mem])⟩

end StaysAttended

namespace History

variable {first second : Table Nat Manager} {entries : List ChronicleEntry}

theorem eq_of_spares (history : History first entries second)
    (spares : ∀ entry ∈ entries, entry.event.sparesManagers = true) : second = first := by
  induction history with
  | refl => rfl
  | step _ _ next ih =>
      rw [next.eq_of_spares (spares _ (List.mem_append_right _ (List.mem_singleton_self _)))]
      exact ih fun entry mem => spares entry (List.mem_append_left _ mem)

/-- Where nothing happens to managers, each entry finds them as they were. -/
theorem managers_eq_of_spares (history : History first entries second)
    (spares : ∀ entry ∈ entries, entry.event.sparesManagers = true) {entry : ChronicleEntry}
    (mem : entry ∈ entries) : entry.managers = first := by
  rcases List.append_of_mem mem with ⟨earlier, later, rfl⟩
  apply (history.split rfl).1.eq_of_spares
  intro other otherMem
  apply spares other
  rw [List.append_cons]
  exact List.mem_append_left later otherMem

end History

namespace Session

/-- What happens leaves a manager attended that was, and updates of it that began meanwhile
are not in progress any more if it comes back. -/
structure Attends (number : Nat) (back : Bool) (before after : Session) : Prop where
  evolves : before.Evolves after
  nests : updatesInProgress number before.chronicle <:+ updatesInProgress number after.chronicle
  returns : back = true →
    updatesInProgress number after.chronicle = updatesInProgress number before.chronicle
  attended : (before.manager number).IsAttended (updatesInProgress number before.chronicle) →
    ∀ entries, after.chronicle = before.chronicle ++ entries →
      StaysAttended number (updatesInProgress number before.chronicle) entries

namespace Attends

variable {number : Nat} {back : Bool} {first second third before after : Session}

/-- A manager that was attended is attended in the end. -/
theorem isAttended (attends : before.Attends number back after)
    (wasAttended : (before.manager number).IsAttended
      (updatesInProgress number before.chronicle)) :
    (after.manager number).IsAttended (updatesInProgress number after.chronicle) := by
  rcases attends.evolves.history with ⟨entries, chronicleEq, history, _⟩
  have stays := attends.attended wasAttended entries chronicleEq
  rcases List.eq_nil_or_concat entries with rfl | ⟨others, last, rfl⟩
  · rw [chronicleEq, List.append_nil, manager, ← history.eq_of_nil]
    exact wasAttended
  · rw [List.concat_eq_append] at history stays chronicleEq
    have isLast : last.managers = after.managers := by
      simpa [managersAfter] using history.managersAfter_eq
    rw [chronicleEq, updatesInProgress_append, manager, ← isLast]
    exact stays.of_split

theorem trans (earlier : first.Attends number true second)
    (later : second.Attends number back third) : first.Attends number back third where
  evolves := earlier.evolves.trans later.evolves
  nests := earlier.nests.trans later.nests
  returns isBack := (later.returns isBack).trans (earlier.returns rfl)
  attended wasAttended entries chronicleEq := by
    rcases earlier.evolves.history with ⟨former, formerEq, _, _⟩
    rcases later.evolves.history with ⟨latter, latterEq, _, _⟩
    obtain rfl : entries = former ++ latter := by
      rw [latterEq, formerEq, List.append_assoc] at chronicleEq
      exact (List.append_cancel_left chronicleEq).symm
    apply (earlier.attended wasAttended former formerEq).append
    rw [← updatesInProgress_append, ← formerEq]
    exact later.attended (earlier.isAttended wasAttended) latter latterEq

/-- No update of the manager begins or ends. -/
theorem of_same (evolves : before.Evolves after) {entries : List ChronicleEntry}
    (chronicleEq : after.chronicle = before.chronicle ++ entries)
    (same : ∀ entry ∈ entries, ∀ updates, entry.event.updatesAfter number updates = updates)
    (attended : (before.manager number).IsAttended (updatesInProgress number before.chronicle) →
      ∀ entry ∈ entries, (entry.managers.getD number default).IsAttended
        (updatesInProgress number before.chronicle)) : before.Attends number back after := by
  have unchanged : updatesInProgress number after.chronicle =
      updatesInProgress number before.chronicle := by
    rw [chronicleEq, updatesInProgress_append, updatesSince_eq_self same]
  refine ⟨evolves, unchanged ▸ List.suffix_rfl, fun _ => unchanged, ?_⟩
  intro wasAttended others othersEq
  obtain rfl : others = entries := List.append_cancel_left (othersEq.symm.trans chronicleEq)
  exact .of_same same (attended wasAttended)

/-- Nothing happens to managers. -/
theorem of_spares (evolves : before.Evolves after) {entries : List ChronicleEntry}
    (chronicleEq : after.chronicle = before.chronicle ++ entries)
    (spares : ∀ entry ∈ entries, entry.event.sparesManagers = true) :
    before.Attends number back after := by
  rcases evolves.history with ⟨others, othersEq, history, _⟩
  obtain rfl : others = entries := List.append_cancel_left (othersEq.symm.trans chronicleEq)
  refine .of_same evolves chronicleEq ?_ ?_
  · intro entry mem updates
    have spared := spares entry mem
    cases isEvent : entry.event with
    | changed => simp [isEvent, Event.sparesManagers] at spared
    | _ => rfl
  · intro wasAttended entry mem
    rw [history.managers_eq_of_spares spares mem]
    exact wasAttended

/-- Something happens to another manager. -/
theorem change_of_ne {session : Session} {other : Nat} (ne : other ≠ number) {change : Change}
    (evolves : session.Evolves (session.change other change)) :
    session.Attends number back (session.change other change) := by
  refine .of_same evolves rfl ?_ ?_
  · intro entry mem updates
    obtain rfl := List.mem_singleton.mp mem
    cases change with
    | updateBegun | updateEnded => exact if_neg ne
    | _ => rfl
  · intro wasAttended entry mem
    obtain rfl := List.mem_singleton.mp mem
    have same := session.manager_change_of_ne ne change
    rw [manager] at same
    exact same.symm ▸ wasAttended

/-- Something happens to a manager that is not the beginning or the end of an update. -/
theorem change {session : Session} {acting : Nat} {change : Change}
    (evolves : session.Evolves (session.change acting change))
    (same : ∀ other updates, (Event.changed acting change).updatesAfter other updates = updates)
    (attended : (session.manager acting).IsAttended (updatesInProgress acting session.chronicle) →
      ((session.manager acting).after change).IsAttended
        (updatesInProgress acting session.chronicle)) :
    session.Attends number back (session.change acting change) := by
  by_cases ne : acting = number
  · subst ne
    refine .of_same evolves rfl ?_ ?_
    · intro entry mem
      obtain rfl := List.mem_singleton.mp mem
      exact same acting
    · intro wasAttended entry mem
      obtain rfl := List.mem_singleton.mp mem
      have isAfter := session.manager_change_self acting change
      rw [manager] at isAfter
      exact isAfter.symm ▸ attended wasAttended
  · exact .change_of_ne ne evolves

section Updates

variable {session : Session} {version : Int}

theorem updatesInProgress_begun (session : Session) (number : Nat) (version : Int) :
    updatesInProgress number (session.change number (.updateBegun version)).chronicle =
      version :: updatesInProgress number session.chronicle := by
  rw [Session.change, enter, updatesInProgress_append]
  exact if_pos rfl

theorem updatesInProgress_ended (session : Session) (number : Nat) (version : Int)
    (status : UpdateStatus) :
    updatesInProgress number (session.change number (.updateEnded version status)).chronicle =
      (updatesInProgress number session.chronicle).erase version := by
  rw [Session.change, enter, updatesInProgress_append]
  exact if_pos rfl

/-- After an update began a manager stays attended for as long as what follows attends to
it. -/
theorem stays_of_begun
    (rest : (session.change number (.updateBegun version)).Attends number back after)
    (wasAttended : (session.manager number).IsAttended
      (updatesInProgress number session.chronicle)) :
    ∃ entries, after.chronicle = session.chronicle ++ entries ∧
      StaysAttended number (updatesInProgress number session.chronicle) entries := by
  rcases rest.evolves.history with ⟨entries, chronicleEq, _, _⟩
  have begun := wasAttended.begun version
  rw [← manager_change_self, ← updatesInProgress_begun] at begun
  refine ⟨_, chronicleEq.trans (List.append_assoc _ _ _), ?_⟩
  have stays := rest.attended begun entries chronicleEq
  rw [updatesInProgress_begun] at stays begun
  have isAfter : (Event.changed number (.updateBegun version)).updatesAfter number
      (updatesInProgress number session.chronicle) =
        version :: updatesInProgress number session.chronicle := if_pos rfl
  exact ⟨isAfter.symm ▸ begun, isAfter.symm ▸ stays⟩

/-- An update begins and does not come to its end. -/
theorem of_begun (evolves : session.Evolves (session.change number (.updateBegun version)))
    (rest : (session.change number (.updateBegun version)).Attends number back after) :
    session.Attends number false after where
  evolves := evolves.trans rest.evolves
  nests := by
    have nests := rest.nests
    rw [updatesInProgress_begun] at nests
    exact (List.suffix_cons version _).trans nests
  returns isBack := by cases isBack
  attended wasAttended entries chronicleEq := by
    rcases stays_of_begun rest wasAttended with ⟨others, othersEq, stays⟩
    obtain rfl : entries = others := List.append_cancel_left (chronicleEq.symm.trans othersEq)
    exact stays

/-- An update begins and ends. -/
theorem of_ended (evolves : session.Evolves (session.change number (.updateBegun version)))
    (rest : (session.change number (.updateBegun version)).Attends number true after)
    {status : UpdateStatus}
    (ends : after.Evolves (after.change number (.updateEnded version status)))
    (concluded : (session.manager number).IsAttended
        (updatesInProgress number session.chronicle) →
      (after.manager number).latest.stage = .parsed →
      (after.manager number).latest.version = version →
        version ≤ (after.manager number).settled ∨
          version ∈ updatesInProgress number session.chronicle) :
    session.Attends number back (after.change number (.updateEnded version status)) := by
  have during : updatesInProgress number after.chronicle =
      version :: updatesInProgress number session.chronicle := by
    rw [rest.returns rfl, updatesInProgress_begun]
  have unchanged : updatesInProgress number
      (after.change number (.updateEnded version status)).chronicle =
        updatesInProgress number session.chronicle := by
    rw [updatesInProgress_ended, during, List.erase_cons_head]
  refine ⟨(evolves.trans rest.evolves).trans ends, unchanged ▸ List.suffix_rfl,
    fun _ => unchanged, ?_⟩
  intro wasAttended entries chronicleEq
  rcases stays_of_begun rest wasAttended with ⟨others, othersEq, stays⟩
  obtain rfl : entries = others ++ [_] := by
    rw [Session.change, enter, othersEq, List.append_assoc] at chronicleEq
    exact (List.append_cancel_left chronicleEq).symm
  apply stays.append
  have begun := wasAttended.begun version
  rw [← manager_change_self, ← updatesInProgress_begun] at begun
  have ended := ((during ▸ rest.isAttended begun).ended status (concluded wasAttended))
  rw [← manager_change_self, ← unchanged] at ended
  rw [Session.change, enter, othersEq, List.append_assoc, updatesInProgress_append,
    updatesSince_append] at ended
  exact ⟨ended, trivial⟩

end Updates

end Attends

end Session

end Proofline
