import Mathlib.Data.List.Perm.Subperm
import Proofline.Proofs.Lineage
import Proofline.Proofs.ScriptedVerifier
import Proofline.Proofs.Settlement

/-!
# Awaited versions

A version is complete when as many results were counted as there are units. Results are
counted once for each key, and only units have one, so a complete version has a result for
every unit. There is then nothing left to record: once a manager has come to it, only newer
versions are accepted. Whoever awaits the latest version gets such a snapshot, and what
was verified in full never gives way to an older version.
-/

namespace Proofline

namespace Verified

/-- Whether the results of a version are counted, and are results of its units. -/
structure IsCounted (verified : Verified) : Prop where
  completed : verified.completed = verified.results.size
  ofUnits : ∀ key ∈ verified.results, key ∈ verified.resolved.units.map Declaration.key

theorem isCounted_start (base : Resolved) : (start base).IsCounted where
  completed := rfl
  ofUnits key mem := by simp [start] at mem

/-- Whether every unit of a version has a result. -/
def IsFinished (verified : Verified) : Prop :=
  ∀ unit ∈ verified.resolved.units, unit.key ∈ verified.results

namespace IsCounted

variable {verified : Verified}

/-- The result of a unit that is pending is counted. -/
theorem withResult (counted : verified.IsCounted) {unit : Declaration} (outcome : Outcome)
    (mem : unit ∈ verified.resolved.units) (pending : unit.key ∉ verified.results) :
    (verified.withResult unit outcome).IsCounted where
  completed := by
    simp [Verified.withResult, pending, counted.completed, Std.ExtTreeMap.size_insert]
  ofUnits key known := by
    rcases Std.ExtTreeMap.mem_insert.mp known with same | known
    · obtain rfl : unit.key = key := by simpa using same
      exact List.mem_map_of_mem mem
    · exact counted.ofUnits key known

/-- Different keys of units that are as many as the units are all of their keys. -/
theorem isFinished (counted : verified.IsCounted) (complete : verified.complete = true) :
    verified.IsFinished := by
  have ofUnits : verified.results.keys ⊆ verified.resolved.units.map Declaration.key :=
    fun key mem => counted.ofUnits key (Std.ExtTreeMap.mem_keys.mp mem)
  have asMany : (verified.resolved.units.map Declaration.key).length ≤
      verified.results.keys.length := by
    rw [List.length_map, Std.ExtTreeMap.length_keys, ← counted.completed]
    exact of_decide_eq_true complete
  have keys := (Std.ExtTreeMap.nodup_keys.subperm ofUnits).perm_of_length_le asMany
  intro unit mem
  exact Std.ExtTreeMap.mem_keys.mp (keys.symm.subset (List.mem_map_of_mem mem))

end IsCounted

end Verified

/-- Whether the results that a snapshot holds are counted. -/
def Snapshot.IsCounted (snapshot : Snapshot) : Prop :=
  ∀ verified, snapshot = .verified verified → verified.IsCounted

/-- Whether a snapshot is a given version or newer than it. -/
def Snapshot.Upholds (verified : Verified) (snapshot : Snapshot) : Prop :=
  snapshot = .verified verified ∨ verified.compilation.version < snapshot.version

namespace Descends

variable {number : Nat} {past : List ChronicleEntry} {event : Event} {before after : Snapshot}

theorem isCounted (descends : Descends number past event before after)
    (counted : before.IsCounted) : after.IsCounted := by
  cases descends with
  | kept _ same => exact same ▸ counted
  | opened _ _ unloaded =>
      rintro verified rfl
      cases unloaded
  | accepted _ _ grounds =>
      rintro verified rfl
      cases grounds with
      | start base => exact Verified.isCounted_start base
      | withResult partly outcome mem pending =>
          exact (counted partly rfl).withResult outcome mem pending

/-- After a version that is finished, what is accepted is of a newer version. -/
theorem version_lt_of_accepted (descends : Descends number past event before after)
    {verified : Verified} (finished : verified.IsFinished) (upheld : before.Upholds verified)
    {snapshot : Snapshot} (accepted : event.accepted? number = some snapshot) :
    verified.compilation.version < snapshot.version := by
  cases descends with
  | kept silent _ => simp [accepted] at silent
  | opened silent _ _ => simp [accepted] at silent
  | accepted isAccepted current grounds =>
      obtain rfl := Option.some.inj (isAccepted.symm.trans accepted)
      unfold Snapshot.Precedes at current
      rcases upheld with rfl | newer
      · cases after with
        | unloaded | parsed | resolved =>
            simp only [Snapshot.stage, Stage.rank] at current
            change ¬(_ < verified.compilation.version ∨ _ = verified.compilation.version ∧ _)
              at current
            omega
        | verified next =>
            -- Another result of the version would be that of a unit that has none.
            cases grounds with
            | withResult _ outcome mem pending => exact absurd (finished _ mem) pending
      · omega

theorem upholds (descends : Descends number past event before after)
    (known : number ∈ managersAfter ∅ past) {verified : Verified}
    (finished : verified.IsFinished) (upheld : before.Upholds verified) :
    after.Upholds verified := by
  cases descends with
  | kept _ same => exact same ▸ upheld
  | opened _ unknown _ => exact absurd known unknown
  | accepted isAccepted current grounds =>
      exact Or.inr (version_lt_of_accepted (.accepted isAccepted current grounds) finished upheld
        isAccepted)

end Descends

/-- Whether a version was recorded as verified in full by a manager. -/
def HasRecorded (number : Nat) (verified : Verified) (entries : List ChronicleEntry) : Prop :=
  ∃ entry ∈ entries,
    entry.event = .changed number (.verified verified.compilation.version verified)

/-- What was verified in full of a manager after an event is what was before, or it is
recorded at the event and not older. -/
theorem Successor.lastVerified {before after : Table Nat Manager} {event : Event}
    (next : Successor before event after) (number : Nat) :
    (after.getD number default).lastVerified = (before.getD number default).lastVerified ∨
      ∃ verified, event = .changed number (.verified verified.compilation.version verified) ∧
        (after.getD number default).lastVerified = some verified ∧
        ∀ last, (before.getD number default).lastVerified = some last →
          last.compilation.version ≤ verified.compilation.version := by
  cases next with
  | spared => exact Or.inl rfl
  | @opened opened _ new =>
      rw [Std.ExtTreeMap.getD_insert]
      split
      · rename_i same
        obtain rfl : opened = number := by simpa using same
        rw [Std.ExtTreeMap.getD_eq_fallback new]
        exact Or.inl rfl
      · exact Or.inl rfl
  | @changed changed change _ allowed =>
      rw [Std.ExtTreeMap.getD_insert]
      split
      · rename_i same
        obtain rfl : changed = number := by simpa using same
        cases change with
        | verified version verified =>
            obtain ⟨_, rfl, _⟩ := allowed
            rcases (before.getD changed default).lastVerified_settle
              verified.compilation.version verified with
              ⟨isLast, newest⟩ | ⟨last, isLast, wasLast, _⟩
            · exact Or.inr ⟨verified, rfl, isLast, newest⟩
            · exact Or.inl (isLast.trans wasLast.symm)
        | verificationEnded version =>
            simp only [Manager.after]
            split <;> exact Or.inl rfl
        | _ => exact Or.inl rfl
      · exact Or.inl rfl

/-- Whether a manager has verified a version in full that is not older than a given one. -/
def Manager.HasVerified (version : Int) (manager : Manager) : Prop :=
  ∃ last, manager.lastVerified = some last ∧ version ≤ last.compilation.version

namespace History

variable {first second : Table Nat Manager} {entries : List ChronicleEntry} {number : Nat}

/-- What was verified in full never gives way to an older version. -/
theorem hasVerified (history : History first entries second) {version : Int}
    (verified : (first.getD number default).HasVerified version) :
    (second.getD number default).HasVerified version := by
  induction history with
  | refl => exact verified
  | step depth earlier next ih =>
      rcases ih with ⟨last, wasLast, reached⟩
      rcases next.lastVerified number with same | ⟨newer, _, isLast, newest⟩
      · exact ⟨last, same.trans wasLast, reached⟩
      · exact ⟨newer, isLast, Int.le_trans reached (newest last wasLast)⟩

/-- What was verified in full was recorded as such. -/
theorem hasRecorded (history : History ∅ entries second) {verified : Verified}
    (isLast : (second.getD number default).lastVerified = some verified) :
    HasRecorded number verified entries := by
  generalize begins : (∅ : Table Nat Manager) = first at history
  induction history with
  | refl =>
      subst begins
      rw [Std.ExtTreeMap.getD_eq_fallback (by simp)] at isLast
      cases isLast
  | @step _ _ _ event depth earlier next ih =>
      rcases next.lastVerified number with same | ⟨newer, recorded, isNewer, _⟩
      · rcases ih (same.symm.trans isLast) with ⟨entry, mem, recorded⟩
        exact ⟨entry, List.mem_append_left _ mem, recorded⟩
      · obtain rfl := Option.some.inj (isNewer.symm.trans isLast)
        exact ⟨_, List.mem_append_right _ (List.mem_singleton_self _), recorded⟩

end History

/-- Whoever awaits the latest version gets nothing, or what was verified in full of it or of
a newer version. -/
theorem SessionM.lastVerified_of_run_awaitVerified {session after : Session} {number : Nat}
    {verified : Verified}
    (returned : (awaitVerified number).run session = (.ok (some verified), after)) :
    (session.manager number).lastVerified = some verified ∧
      (session.manager number).latest.version ≤ verified.compilation.version := by
  cases settled : (session.manager number).isSettled (session.manager number).latest.version with
  | true =>
      rw [run_awaitVerified_of_isSettled settled] at returned
      have found := Except.ok.inj (Prod.mk.inj returned).1
      rcases Option.filter_eq_some_iff.mp found with ⟨isLast, current⟩
      exact ⟨isLast, of_decide_eq_true current⟩
  | false =>
      rw [run_awaitVerified_of_not_isSettled settled] at returned
      cases canceled : session.canceled with
      | true | false =>
          rw [canceled] at returned
          cases returned

namespace Session

/-- What a snapshot is that someone gets who awaits the latest version of a manager. -/
structure Delivers (number : Nat) (session : Session) (verified : Verified) : Prop where
  current : (session.manager number).latest.version ≤ verified.compilation.version
  finished : verified.IsFinished
  accepted : HasAccepted number (.verified verified) session.chronicle
  /-- It was recorded as verified in full. Whatever happens afterwards, all snapshots that are
  accepted since then are of newer versions. -/
  final : ∃ earlier entry later, session.chronicle = earlier ++ entry :: later ∧
    entry.event = .changed number (.verified verified.compilation.version verified) ∧
    ∀ after : Session, session.Unfolds after → ∀ rest,
      after.chronicle = earlier ++ entry :: rest → ∀ other ∈ rest, ∀ snapshot,
        other.event.accepted? number = some snapshot →
          verified.compilation.version < snapshot.version

/-- How a manager keeps what it verified in full. -/
structure KeepsVerified (number : Nat) (session : Session) : Prop where
  /-- Whoever awaits the latest version gets what was verified in full, or nothing. -/
  delivers : ∀ verified after,
    (SessionM.awaitVerified number).run session = (.ok (some verified), after) →
      session.Delivers number verified
  /-- The version that was verified in full last never decreases. -/
  ascends : ∀ earlier entry later, session.chronicle = earlier ++ entry :: later →
    ∀ last, (entry.managers.getD number default).lastVerified = some last →
      ∀ other ∈ later, ∃ newer, (other.managers.getD number default).lastVerified = some newer ∧
        last.compilation.version ≤ newer.compilation.version

namespace Occurs

variable {session : Session} {number : Nat} {earlier later past rest : List ChronicleEntry}
  {entry : ChronicleEntry} {verified : Verified}

/-- The results of every latest snapshot are counted. -/
theorem isCounted (occurs : session.Occurs) (number : Nat)
    (parts : session.chronicle = past ++ rest) : (latestAfter number past).IsCounted := by
  apply occurs.latestAfter_of_descends number ?_ Descends.isCounted parts
  rintro _ ⟨⟩

/-- What was the latest snapshot has its results counted and was accepted. -/
theorem isCounted_and_hasAccepted (occurs : session.Occurs)
    (parts : session.chronicle = past ++ rest) (seen : HasSeen number (.verified verified) past) :
    verified.IsCounted ∧ HasAccepted number (.verified verified) past := by
  refine ⟨?_, (occurs.hasLineage_of_seen parts seen).itself (by simp [Snapshot.stage])⟩
  rcases seen with ⟨entry, mem, isLatest⟩
  rcases List.append_of_mem mem with ⟨former, latter, rfl⟩
  have split : session.chronicle = former ++ [entry] ++ (latter ++ rest) := by simp [parts]
  have latest : latestAfter number (former ++ [entry]) = .verified verified := by
    rw [latestAfter_append_singleton, isLatest]
  exact occurs.isCounted number split verified latest

/-- A version that is finished is upheld by every later snapshot. -/
theorem upholds (occurs : session.Occurs) (parts : session.chronicle = earlier ++ entry :: later)
    (isLatest : entry.latest number = .verified verified) (finished : verified.IsFinished) :
    ∀ former rest, later = former ++ rest →
      (latestAfter number (earlier ++ [entry] ++ former)).Upholds verified := by
  have split : session.chronicle = earlier ++ [entry] ++ later := by simp [parts]
  refine occurs.latestAfter_of_known split ?_ ?_ fun descends known upheld =>
    descends.upholds known finished upheld
  · have known := entry.mem_managers_of_stage_ne (by rw [isLatest]; nofun)
    simpa [managersAfter] using known
  · rw [latestAfter_append_singleton]
    exact Or.inl isLatest

/-- After a version that is finished, only newer versions are accepted. -/
theorem version_lt_of_accepted (occurs : session.Occurs)
    (parts : session.chronicle = earlier ++ entry :: later)
    (isLatest : entry.latest number = .verified verified) (finished : verified.IsFinished)
    {other : ChronicleEntry} (mem : other ∈ later) {snapshot : Snapshot}
    (accepted : other.event.accepted? number = some snapshot) :
    verified.compilation.version < snapshot.version := by
  rcases List.append_of_mem mem with ⟨former, rest, rfl⟩
  have upheld := occurs.upholds parts isLatest finished former (other :: rest) rfl
  have split : session.chronicle = earlier ++ [entry] ++ former ++ other :: rest := by
    simp [parts]
  exact (occurs.descends split number).version_lt_of_accepted finished upheld accepted

end Occurs

namespace Arises

variable {session : Session} {number : Nat}

/-- What was verified in full was the latest snapshot before it was recorded as such. -/
theorem recorded_of_lastVerified (arises : session.Arises) {verified : Verified}
    (isLast : (session.manager number).lastVerified = some verified) :
    ∃ earlier entry later, session.chronicle = earlier ++ entry :: later ∧
      entry.event = .changed number (.verified verified.compilation.version verified) ∧
      HasSeen number (.verified verified) earlier := by
  rcases arises.occurs.isReachable.history.1.hasRecorded isLast with ⟨entry, mem, recorded⟩
  rcases List.append_of_mem mem with ⟨earlier, later, parts⟩
  have seen : HasSeen number (.verified verified) earlier := by
    have warrant := arises.hasWarrant parts
    rwa [recorded] at warrant
  exact ⟨earlier, entry, later, parts, recorded, seen⟩

theorem delivers (arises : session.Arises) {verified : Verified} {after : Session}
    (returned : (SessionM.awaitVerified number).run session = (.ok (some verified), after)) :
    session.Delivers number verified := by
  rcases SessionM.lastVerified_of_run_awaitVerified returned with ⟨isLast, current⟩
  rcases arises.recorded_of_lastVerified isLast with
    ⟨earlier, entry, later, parts, recorded, seen⟩
  have history := arises.occurs.isReachable.history.1
  rcases arises.occurs.isCounted_and_hasAccepted parts seen with ⟨counted, accepted⟩
  have finished := counted.isFinished ((history.accounted number).verified verified isLast).1
  refine ⟨current, finished, parts ▸ accepted.append (entry :: later),
    earlier, entry, later, parts, recorded, ?_⟩
  intro afterwards unfolds rest extended other isOther snapshot isAccepted
  rcases seen with ⟨first, isFirst, isLatest⟩
  rcases List.append_of_mem isFirst with ⟨former, latter, rfl⟩
  have occurs := arises.occurs.of_unfolds unfolds
  have split : afterwards.chronicle = former ++ first :: (latter ++ entry :: rest) := by
    simp [extended]
  exact occurs.version_lt_of_accepted split isLatest finished (by simp [isOther]) isAccepted

/-- In every session a manager keeps what it verified in full. -/
theorem keepsVerified (arises : session.Arises) (number : Nat) :
    session.KeepsVerified number where
  delivers verified after returned := arises.delivers returned
  ascends earlier entry later parts last isLast other mem := by
    rcases List.append_of_mem mem with ⟨former, rest, rfl⟩
    have history := (arises.occurs.isReachable.history.1.split parts).2
    exact (history.split rfl).1.hasVerified ⟨last, isLast, Int.le_refl _⟩

end Arises

/-- The sample version was verified in full, is delivered to whoever awaits it, and has the
result of its one unit. -/
theorem keepsVerified_sample : ∃ verified : Verified,
    ((SessionM.awaitVerified 0).run verifiedSample).1 = .ok (some verified) ∧
      verified.resolved.units.length = 1 ∧ verifiedSample.Delivers 0 verified := by
  have delivered : ((SessionM.awaitVerified 0).run verifiedSample).1.toOption.join.map
      (fun verified => verified.resolved.units.length) = some 1 := by
    decide +kernel
  have arises : verifiedSample.Arises := arises_run {} 0 _
  generalize verifiedSample = session at *
  rcases ran : (SessionM.awaitVerified 0).run session with ⟨outcome, after⟩
  rw [ran] at delivered
  rcases Option.map_eq_some_iff.mp delivered with ⟨verified, isDelivered, units⟩
  have returned : outcome = .ok (some verified) := by
    cases outcome with
    | error stop => cases isDelivered
    | ok result => exact congrArg _ isDelivered
  subst returned
  exact ⟨verified, rfl, units, (arises.keepsVerified 0).delivers verified after ran⟩

end Session

end Proofline
