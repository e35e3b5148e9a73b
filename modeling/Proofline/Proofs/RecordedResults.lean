import Proofline.Proofs.Growth
import Proofline.Proofs.ScriptedVerifier

/-!
# Recorded results

A result of a version, once it is recorded, remains as it is in every later snapshot of
the version, and the verifier is not called for its unit again. This holds although
verifications nest: while one is under way, a second one of the same version is turned
away, whatever steps the verifier has run before.
-/

namespace Proofline

/-- Whether a snapshot is not of an older version than a given one, and has a result if it is of
that version. -/
def Snapshot.Retains (version : Int) (key : UnitKey) (result : UnitResult)
    (snapshot : Snapshot) : Prop :=
  version ≤ snapshot.version ∧
    (snapshot.version = version → snapshot.results[key]? = some result)

namespace Descends

variable {number : Nat} {past : List ChronicleEntry} {event : Event} {before after : Snapshot}

/-- The next latest snapshot of a version has all results of the one before. -/
theorem result_eq (descends : Descends number past event before after)
    (known : number ∈ managersAfter ∅ past) (sameVersion : after.version = before.version)
    {key : UnitKey} {result : UnitResult} (found : before.results[key]? = some result) :
    after.results[key]? = some result := by
  cases descends with
  | kept _ same => rwa [same]
  | opened _ unknown _ => exact absurd known unknown
  | accepted _ current grounds =>
      cases before with
      | unloaded | parsed | resolved => simp [Snapshot.results] at found
      | verified partly =>
          cases after with
          | unloaded | parsed | resolved =>
              simp [Snapshot.Precedes, sameVersion, Snapshot.stage, Stage.rank] at current
          | verified verified =>
              cases grounds with
              | @withResult _ unit outcome mem pending =>
                  have other : unit.key ≠ key := by
                    rintro rfl
                    exact pending (Std.ExtTreeMap.mem_iff_isSome_getElem?.mpr (by
                      rw [← Snapshot.results, found]
                      rfl))
                  rw [Snapshot.results, Verified.withResult, Std.ExtTreeMap.getElem?_insert,
                    if_neg (by simpa using other)]
                  exact found

theorem retains (descends : Descends number past event before after)
    (known : number ∈ managersAfter ∅ past) {version : Int} {key : UnitKey}
    {result : UnitResult} (retained : before.Retains version key result) :
    after.Retains version key result := by
  rcases retained with ⟨reached, found⟩
  have ascends := descends.version_le known
  constructor
  · omega
  · intro isVersion
    have same : after.version = before.version := by omega
    exact descends.result_eq known same (found (same.symm.trans isVersion))

end Descends

/-- A mark on the version being verified remains until the verification ends, unless the
manager comes to a newer version. -/
theorem Successor.stillVerifying {before after : Table Nat Manager} {event : Event}
    (next : Successor before event after) {number : Nat} {version : Int}
    (known : number ∈ before)
    (verifying : (before.getD number default).verifying = some version)
    (latest : (before.getD number default).latest.version = version)
    (continues : event ≠ .changed number (.verificationEnded version)) :
    (after.getD number default).verifying = some version := by
  cases next with
  | spared => exact verifying
  | @opened opened _ new =>
      have ne : opened ≠ number := fun same => new (same ▸ known)
      simpa [Std.ExtTreeMap.getD_insert, ne] using verifying
  | @changed changed change _ allowed =>
      rw [Std.ExtTreeMap.getD_insert]
      split
      · rename_i same
        obtain rfl : changed = number := by simpa using same
        cases change with
        | verificationBegun other =>
            obtain ⟨rfl, _, _, unmarked⟩ := allowed
            exact absurd (latest ▸ verifying) unmarked
        | verificationEnded other =>
            have ne : other ≠ version := fun same => continues (by rw [same])
            simp [Manager.after, verifying, Ne.symm ne]
        | _ => exact verifying
      · exact verifying

namespace History

variable {first second : Table Nat Manager} {entries : List ChronicleEntry} {number : Nat}

theorem stillVerifying (history : History first entries second) {version : Int}
    (known : number ∈ first)
    (verifying : (first.getD number default).verifying = some version)
    (begun : (first.getD number default).latest.version = version)
    (continues : ∀ entry ∈ entries, entry.event ≠ .changed number (.verificationEnded version))
    (latest : (second.getD number default).latest.version = version) :
    (second.getD number default).verifying = some version := by
  induction history with
  | refl => exact verifying
  | step depth earlier next ih =>
      have reached := earlier.not_precedes known
      have further := next.not_precedes (earlier.mem known)
      unfold Snapshot.Precedes at reached further
      have marked := ih (fun entry mem => continues entry (List.mem_append_left _ mem)) (by omega)
      have goesOn := continues _ (List.mem_append_right _ (List.mem_singleton_self _))
      exact next.stillVerifying (earlier.mem known) marked (by omega) goesOn

/-- A manager that was verifying its latest version still is when that is the latest one and
its verification has not ended. -/
theorem isVerifyingLatest (history : History first entries second)
    (verifying : (first.getD number default).IsVerifyingLatest)
    (continues : ∀ entry ∈ entries, entry.event ≠
      .changed number (.verificationEnded (first.getD number default).latest.version))
    (latest : (second.getD number default).latest.version =
      (first.getD number default).latest.version) :
    (second.getD number default).IsVerifyingLatest := by
  have known : number ∈ first := by
    by_contra unknown
    rw [Std.ExtTreeMap.getD_eq_fallback unknown] at verifying
    exact absurd verifying.1 (by decide)
  constructor
  · have notBack := history.not_precedes known
    rw [Snapshot.Precedes, latest, verifying.1] at notBack
    cases stage : (second.getD number default).latest.stage with
    | verified => rfl
    | unloaded | parsed | resolved => simp [stage, Stage.rank] at notBack
  · rw [latest]
    exact history.stillVerifying known verifying.2 rfl continues latest

end History

/-- Verifying does nothing while the latest version is being verified. -/
theorem SessionM.run_verifyEverything_of_isVerifyingLatest {session : Session} {number : Nat}
    (verifying : (session.manager number).IsVerifyingLatest) (services : Services) :
    (verifyEverything services number).run session = (.ok (), session) := by
  apply run_verifyEverything_of_refuses
  · apply isReady_of_resolved
    rw [verifying.1]
    decide
  · exact Or.inr verifying.2

/-- Whether a result of a version is final over some entries: it is in every snapshot of the
version that is accepted, and the verifier is not called for its unit. -/
structure UnitResult.IsFinal (number : Nat) (version : Int) (key : UnitKey)
    (entries : List ChronicleEntry) (result : UnitResult) : Prop where
  kept : ∀ entry ∈ entries, ∀ snapshot, entry.event.accepted? number = some snapshot →
    snapshot.version = version → snapshot.results[key]? = some result
  notCalled : ∀ entry ∈ entries, ∀ unit, entry.event = .verifying number version unit →
    unit.key ≠ key

namespace Session

/-- What a manager does with the results of a version. -/
structure RecordsOnce (number : Nat) (session : Session) : Prop where
  /-- A result in a snapshot that was accepted is final. -/
  final : ∀ earlier entry later, session.chronicle = earlier ++ entry :: later →
    ∀ snapshot : Snapshot, entry.event.accepted? number = some snapshot →
      ∀ (key : UnitKey) (result : UnitResult), snapshot.results[key]? = some result →
        result.IsFinal number snapshot.version key later
  /-- After a call of the verifier and before the verification ends, verifying does nothing
  unless there is a newer version. -/
  guarded : ∀ earlier entry later, session.chronicle = earlier ++ entry :: later →
    ∀ version unit, entry.event = .verifying number version unit →
      (∀ other ∈ later, other.event ≠ .changed number (.verificationEnded version)) →
      (session.manager number).latest.version = version →
      ∀ services, (SessionM.verifyEverything services number).run session = (.ok (), session)
  /-- No steps that the verifier runs when it is called change that. -/
  sustained : ∀ earlier entry, session.chronicle = earlier ++ [entry] →
    ∀ version unit, entry.event = .verifying number version unit →
      ∀ (n : Nat) (steps : List (Step n)) (outcome : Except Stop Unit) (after : Session),
        (Script.runSteps (Step.perform n) steps).run session = (outcome, after) →
        (after.manager number).latest.version = version →
        ∀ services, (SessionM.verifyEverything services number).run after = (.ok (), after)

namespace Occurs

variable {session : Session} {number : Nat} {earlier later : List ChronicleEntry}
  {entry : ChronicleEntry}

/-- Once accepted, a result is retained by all latest snapshots. -/
theorem retains (occurs : session.Occurs) (parts : session.chronicle = earlier ++ entry :: later)
    {first : Snapshot} (isAccepted : entry.event.accepted? number = some first) {key : UnitKey}
    {result : UnitResult} (found : first.results[key]? = some result) :
    ∀ former rest, later = former ++ rest →
      (latestAfter number (earlier ++ [entry] ++ former)).Retains first.version key result := by
  have accepted := occurs.isReachable.history.1.latest_of_accepted (by simp [parts]) isAccepted
  have split : session.chronicle = earlier ++ [entry] ++ later := by simp [parts]
  refine occurs.latestAfter_of_known split ?_ ?_ fun descends known retained =>
    descends.retains known retained
  · simpa [managersAfter] using accepted.1
  · rw [latestAfter_append_singleton, accepted.2]
    exact ⟨Int.le_refl _, fun _ => found⟩

/-- An accepted result is final. -/
theorem isFinal (occurs : session.Occurs) (parts : session.chronicle = earlier ++ entry :: later)
    {first : Snapshot} (isAccepted : entry.event.accepted? number = some first) {key : UnitKey}
    {result : UnitResult} (found : first.results[key]? = some result) :
    result.IsFinal number first.version key later where
  kept other mem snapshot accepted sameVersion := by
    rcases List.append_of_mem mem with ⟨former, rest, rfl⟩
    have retained := occurs.retains parts isAccepted found (former ++ [other]) rest (by simp)
    have isLatest := occurs.isReachable.history.1.latest_of_accepted (by simp [parts]) accepted
    rw [← List.append_assoc, latestAfter_append_singleton, isLatest.2] at retained
    exact retained.2 sameVersion
  notCalled other mem unit isCall := by
    rcases List.append_of_mem mem with ⟨former, rest, rfl⟩
    have retained := occurs.retains parts isAccepted found former (other :: rest) rfl
    have split : session.chronicle = earlier ++ [entry] ++ former ++ other :: rest := by
      simp [parts]
    have grounds := occurs.hasGrounds split
    rw [isCall] at grounds
    rcases grounds with ⟨_, partly, isLatest, isVersion, _, pending⟩
    rw [latestAfter, isLatest] at retained
    rintro rfl
    apply pending
    rw [Std.ExtTreeMap.mem_iff_isSome_getElem?, ← Snapshot.results, retained.2 isVersion]
    rfl

/-- When the verifier is called, a manager is verifying its latest version. -/
theorem isVerifyingLatest (occurs : session.Occurs)
    (parts : session.chronicle = earlier ++ entry :: later) {version : Int} {unit : Declaration}
    (isCall : entry.event = .verifying number version unit) :
    (entry.managers.getD number default).IsVerifyingLatest ∧
      (entry.latest number).version = version := by
  have grounds := occurs.hasGrounds parts
  have same := (occurs.successor parts).eq_of_spares (by rw [isCall]; rfl)
  rw [isCall, ← same] at grounds
  rcases grounds with ⟨marked, partly, isLatest, rfl, _⟩
  rw [ChronicleEntry.latest, Manager.IsVerifyingLatest, isLatest]
  exact ⟨⟨rfl, marked⟩, rfl⟩

/-- In every session results are recorded once. -/
theorem recordsOnce (occurs : session.Occurs) (number : Nat) : session.RecordsOnce number where
  final earlier entry later parts snapshot isAccepted key result found :=
    occurs.isFinal parts isAccepted found
  guarded earlier entry later parts version unit isCall continues latest services := by
    rcases occurs.isVerifyingLatest parts isCall with ⟨verifying, rfl⟩
    have since := (occurs.isReachable.history.1.split parts).2
    have still := since.isVerifyingLatest verifying continues latest
    exact SessionM.run_verifyEverything_of_isVerifyingLatest still services
  sustained earlier entry parts version unit isCall n steps outcome after ran latest services := by
    rcases occurs.isVerifyingLatest parts isCall with ⟨verifying, rfl⟩
    have now := (occurs.isReachable.history.1.split parts).2.eq_of_nil
    rw [ChronicleEntry.latest, now] at latest
    rw [now] at verifying
    have respects := SessionM.respects_runSteps (isDiscipline_behaves none)
      (Step.behaves_perform n) steps session occurs.isReachable.wellNumbered trivial
    rw [ran] at respects
    have unchanged := (respects.1.steady number (by simp)).steady (Or.inr verifying) latest
    apply SessionM.run_verifyEverything_of_isVerifyingLatest
    rwa [unchanged]

end Occurs

end Session

/-- The steps that open the sample project, load it with two methods, and verify it with a
verifier that at the second method awaits the end of the verification. -/
def Step.sampleWaiting : List (Step 1) :=
  let awaits : Step 0 := { request := .await 0, plan := .succeeding none }
  let verifying : Plan (Step 0) :=
    { Plan.succeeding none with
      verify := fun unit => { steps := if unit.name = "g" then [awaits] else [], reply := {} } }
  [{ request := .openProject .sample, plan := .succeeding none },
    { request := .update 0 .sample, plan := .succeeding (some .samplePair) },
    { request := .verify 0, plan := verifying }]

namespace Session

/-- The session after these steps, which end inside the second call of the verifier. -/
def waiting : Session :=
  (run {} 1 Step.sampleWaiting).2

/-- The result of the first method is final when it is accepted, and the verification that
awaits itself is not repeated. -/
theorem recordsOnce_sample :
    (∃ result : UnitResult, result.status = .verified ∧
      result.IsFinal 0 1 Declaration.sampleMethod.key (waiting.chronicle.drop 18)) ∧
    ∀ services, (SessionM.verifyEverything services 0).run waiting = (.ok (), waiting) := by
  have recorded : (waiting.chronicle[17]?.bind fun entry => entry.event.accepted? 0).map
        (fun snapshot => (snapshot.version,
          snapshot.results[Declaration.sampleMethod.key]?.map UnitResult.status)) =
      some (1, some .verified) := by
    decide +kernel
  have called : (waiting.chronicle[19]?.bind fun entry =>
        match entry.event with
        | .verifying number version _ => some (number, version)
        | _ => none) = some (0, 1) ∧
      waiting.chronicle.length = 20 ∧ (waiting.manager 0).latest.version = 1 := by
    decide +kernel
  have occurs := occurs_run {} 1 Step.sampleWaiting
  change waiting.Occurs at occurs
  generalize waiting = session at *
  constructor
  · rcases Option.map_eq_some_iff.mp recorded with ⟨snapshot, isAccepted, told⟩
    rcases Option.bind_eq_some_iff.mp isAccepted with ⟨entry, isEntry, isAccepted⟩
    rw [Prod.mk.injEq, Option.map_eq_some_iff] at told
    rcases told with ⟨isVersion, result, found, verified⟩
    have final := (occurs.recordsOnce 0).final _ _ _ (split_of_getElem? isEntry) snapshot
      isAccepted _ result found
    rw [isVersion] at final
    exact ⟨result, verified, final⟩
  · rcases called with ⟨isCall, isLast, latest⟩
    rcases Option.bind_eq_some_iff.mp isCall with ⟨entry, isEntry, isCall⟩
    split at isCall
    · rename_i unit isVerifying
      cases isCall
      have parts := split_of_getElem? isEntry
      rw [List.drop_of_length_le (by rw [isLast])] at parts
      exact (occurs.recordsOnce 0).guarded _ _ _ parts 1 unit isVerifying (by simp) latest
    · contradiction

end Session

end Proofline
