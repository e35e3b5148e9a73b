import Proofline.Proofs.Lineage
import Proofline.Proofs.Provenance

/-!
# Runs trace what they accept

Updates and verifications accept only snapshots that have their provenance: an update knows
with which snapshot it began, for nothing that happens obscures that once its version is
reached, and a verification goes through the units in order, from the start or from a snapshot
that was seen before. What is accepted in a run therefore is resolved from the trees that its
update found, and is verified in order.
-/

namespace Proofline

namespace SessionM

open Session (Knows Reached CameFrom Traces)

variable {number : Nat} {services : Services}

/-- A manager that has come to a version may change in any way but to accept a snapshot. -/
theorem traces_change {version : Int} (change : Change)
    (allowed : ∀ session, Reached number version session → (session.manager number).Allows change)
    (quiet : ∀ other, (Event.changed number change).dispatch? other = none) :
    Meets (fun _ => Traces) (Reached number version) (SessionM.change number change)
      fun _ => Reached number version :=
  Meets.modify (fun _ => rfl) (fun _ _ reached => .change reached.1 (allowed _ reached) quiet)
    |>.keep (isStable_reached isDiscipline_traces number version) fun _ => id

section Loading

variable {origin : Snapshot} (respect : services.Respect fun _ => Traces)

theorem traces_giveUp (version : Int) (status : UpdateStatus) :
    Meets (fun _ => Traces) (Reached number version) (giveUp number version status)
      fun _ _ => True :=
  .bind isDiscipline_traces (traces_change _ (fun _ reached => reached.2) fun _ => rfl)
    fun _ => .pure isDiscipline_traces fun _ _ => trivial

include respect

theorem traces_loadResolved {parsed : Parsed}
    (isInitial : parsed.trees =
      Parsed.initialTrees parsed.compilation (origin.trees.migrate parsed.compilation)) :
    Meets (fun _ => Traces) (CameFrom number parsed.compilation.version origin)
      (loadResolved services number parsed (origin.trees.migrate parsed.compilation))
      fun _ _ => True := by
  have resolving : Meets (fun _ => Traces) (CameFrom number parsed.compilation.version origin)
      (resolve services parsed (origin.trees.migrate parsed.compilation))
      fun result _ => ∀ resolved, result = .ok resolved →
        resolved.parsed = parsed ∧ resolved.LoadedFrom origin := by
    intro session wellNumbered _
    have resolves := meets_resolve isDiscipline_traces respect number _ parsed
      (origin.trees.migrate parsed.compilation) session wellNumbered rfl
    refine ⟨resolves.1, fun result ran resolved isResolved => ?_⟩
    obtain ⟨rfl, trees, _⟩ := resolves.2 result ran resolved isResolved
    exact ⟨rfl, isInitial, trees⟩
  apply Meets.bind isDiscipline_traces
    (resolving.and_keep (isStable_cameFrom isDiscipline_traces number _ origin) fun _ => id)
  intro result
  rcases result with (_ | _) | resolved
  · exact (traces_giveUp _ _).imp (fun _ post => post.2.1) fun _ _ => id
  · exact (traces_giveUp _ _).imp (fun _ post => post.2.1) fun _ _ => id
  · apply Meets.bind isDiscipline_traces (traces_publish ?_ ?_)
    · exact fun _ => .pure isDiscipline_traces fun _ => id
    · exact fun session post => post.2.1.1
    · rintro session ⟨isResolved, _, began⟩
      obtain ⟨rfl, loaded⟩ := isResolved resolved rfl
      exact ⟨origin, began, loaded⟩

theorem traces_publishParsed {parsed : Parsed}
    (isInitial : parsed.trees =
      Parsed.initialTrees parsed.compilation (origin.trees.migrate parsed.compilation)) :
    Meets (fun _ => Traces) (CameFrom number parsed.compilation.version origin)
      (do
        if ← publish number (.parsed parsed) then
          loadResolved services number parsed (origin.trees.migrate parsed.compilation)
        else
          return .superseded)
      fun _ _ => True := by
  have publishing : Meets (fun _ => Traces) (CameFrom number parsed.compilation.version origin)
      (publish number (.parsed parsed)) _ :=
    traces_publish (fun _ came => came.1.1) fun _ _ => trivial
  apply Meets.bind isDiscipline_traces
    (publishing.keep (isStable_cameFrom isDiscipline_traces number _ origin) fun _ => id)
  intro _
  exact .ite (traces_loadResolved respect isInitial) (.pure isDiscipline_traces fun _ _ => trivial)

theorem traces_loadStages (compilation : Compilation) (origin : Snapshot) :
    Meets (fun _ => Traces) (CameFrom number compilation.version origin)
      (loadStages services number compilation (origin.trees.migrate compilation))
      fun _ _ => True := by
  have parsing := (meets_parse isDiscipline_traces respect compilation
    (origin.trees.migrate compilation)).anywhere.and_keep
      (isStable_cameFrom isDiscipline_traces number compilation.version origin) fun _ => id
  apply Meets.bind isDiscipline_traces parsing
  intro result
  cases result with
  | error _ => exact (traces_giveUp _ _).imp (fun _ post => post.2.1) fun _ _ => id
  | ok parsed =>
      intro session wellNumbered ⟨isParsed, came⟩
      obtain ⟨rfl, isInitial, _⟩ := isParsed parsed rfl
      exact traces_publishParsed respect isInitial session wellNumbered came

theorem traces_loadOrGiveUp (compilation : Compilation) (origin : Snapshot) :
    Meets (fun _ => Traces) (CameFrom number compilation.version origin)
      (loadOrGiveUp services number compilation (origin.trees.migrate compilation))
      fun _ _ => True := by
  have stable := isStable_reached isDiscipline_traces number compilation.version
  have staging := (traces_loadStages respect compilation origin).attempt.keep stable
    fun _ came => came.1
  apply Meets.bind isDiscipline_traces staging
  intro result
  cases result with
  | ok _ => exact .pure isDiscipline_traces fun _ _ => trivial
  | error message =>
      have reporting :=
        (respects_reportFailure isDiscipline_traces "pipeline" message).keep stable
      exact .bind isDiscipline_traces reporting fun _ => traces_giveUp _ .failed

omit respect in
theorem traces_endUpdate (version : Int) (status : UpdateStatus) :
    Meets (fun _ => Traces) (Reached number version)
      (do
        SessionM.change number (.updateEnded version status)
        return status)
      fun _ _ => True :=
  .bind isDiscipline_traces (traces_change _ (fun _ _ => trivial) fun _ => rfl)
    fun _ => .pure isDiscipline_traces fun _ _ => trivial

omit respect in
theorem traces_begunUpdate {session : Session} (compilation : Compilation)
    (known : session.Knows number)
    (notOlder : (session.manager number).latest.version ≤ compilation.version) :
    session.Traces (session.begunUpdate number compilation) := by
  have begun : session.Traces (session.change number (.updateBegun compilation.version)) :=
    .change known notOlder fun _ => rfl
  rcases session.begunUpdate_eq number compilation with ⟨lines, isBegun⟩
  rw [isBegun]
  exact begun.trans (.enter (by simp [Event.sparesManagers]) (by simp [Event.dispatch?]))

omit respect in
theorem traces_openedUpdate {session : Session} {compilation : Compilation}
    (known : session.Knows number)
    (notOlder : (session.manager number).latest.version ≤ compilation.version)
    (current : ¬(Snapshot.unloaded { compilation }).Precedes (session.manager number).latest) :
    session.Traces (session.openedUpdate number compilation) := by
  have begun := traces_begunUpdate compilation known notOlder
  rw [← session.latest_begunUpdate number compilation] at current
  have accepted : (session.begunUpdate number compilation).Traces _ :=
    .accept (begun.evolves.mem_managers known) current (.nil _) trivial
  rw [List.map_nil, Session.enter_nil] at accepted
  exact begun.trans accepted

/-- An update accepts what has its provenance. -/
theorem traces_update (compilation : Compilation) :
    Meets (fun _ => Traces) (Knows number) (update services number compilation)
      fun _ _ => True := by
  intro session wellNumbered known
  refine ⟨?_, fun _ _ => trivial⟩
  rcases Int.lt_or_le compilation.version (session.manager number).latest.version with
    older | notOlder
  · rw [run_update_of_older older]
    exact isDiscipline_traces.refl true session
  by_cases stale : (Snapshot.unloaded { compilation }).Precedes (session.manager number).latest
  · have begun := traces_begunUpdate compilation known notOlder
    rcases run_update_of_stale notOlder stale with ⟨lines, ran⟩
    rw [ran]
    have logged : (session.begunUpdate number compilation).Traces
        ((session.begunUpdate number compilation).enter (lines.map .logged)) :=
      .enter (by simp [Event.sparesManagers]) (by simp [Event.dispatch?])
    have ended := begun.trans logged
    exact ended.trans (.change (ended.evolves.mem_managers known) trivial fun _ => rfl)
  · rw [run_update_of_not_stale services notOlder stale]
    have opened := traces_openedUpdate known notOlder stale
    have loading := (isLoading_openedUpdate known notOlder stale).2
    have loads := (traces_loadOrGiveUp respect compilation (session.manager number).latest).keep
      (isStable_reached isDiscipline_traces number compilation.version) fun _ came => came.1
    have ending := Meets.bind isDiscipline_traces loads fun status =>
      traces_endUpdate compilation.version status
    exact opened.trans (ending _ (opened.evolves.wellNumbered wellNumbered)
      ⟨loading.reached, loading.began⟩).1

end Loading

section Verification

variable {verified : Verified}

/-- Whether a manager has come to the version of a verified snapshot that has its provenance. -/
def CanAccept (number : Nat) (verified : Verified) (session : Session) : Prop :=
  session.Reached number verified.compilation.version ∧
    (Snapshot.verified verified).HasProvenance number session.chronicle

theorem isStable_canAccept (number : Nat) (verified : Verified) :
    IsStable (fun _ => Traces) (CanAccept number verified) := by
  have grows (past later : List ChronicleEntry) :
      (Snapshot.verified verified).HasProvenance number past →
        (Snapshot.verified verified).HasProvenance number (past ++ later) :=
    fun provenance => provenance.append later
  exact (isStable_reached isDiscipline_traces number _).and
    (isStable_chronicle isDiscipline_traces grows)

/-- The snapshot after the first unit without a result may be accepted if the one before it
may. -/
theorem CanAccept.withResult {session : Session} (can : CanAccept number verified session)
    {former rest : List Declaration} {unit : Declaration}
    (parts : verified.resolved.units = former ++ unit :: rest)
    (done : ∀ unit ∈ former, unit.key ∈ verified.results) (pending : unit.key ∉ verified.results)
    (outcome : Outcome) : CanAccept number (verified.withResult unit outcome) session :=
  ⟨can.1, fun inOrder => (can.2 inOrder).withResult parts done pending outcome⟩

theorem traces_publishVerified (verified : Verified) :
    Meets (fun _ => Traces) (CanAccept number verified) (publish number (.verified verified))
      fun _ => CanAccept number verified :=
  (traces_publish (fun _ can => can.1.1) fun _ can => can.2).keep
    (isStable_canAccept number verified) fun _ => id

/-- A verification that comes to its end accepts nothing. -/
theorem traces_finishVerification (version : Int) {last : Option Verified}
    (same : ∀ verified, last = some verified → verified.compilation.version = version) :
    Meets (fun _ => Traces) (Reached number version) (finishVerification number version last)
      fun _ _ => True := by
  have discipline := isDiscipline_traces
  have stable := isStable_reached discipline number version
  apply Meets.bind discipline
    (traces_change (.verificationEnded version) (fun _ _ => trivial) fun _ => rfl)
  intro _
  cases filtered : last.filter Verified.complete with
  | none => exact .pure discipline fun _ _ => trivial
  | some verified =>
      rcases Option.filter_eq_some_iff.mp filtered with ⟨isLast, complete⟩
      apply Meets.bind discipline ((respects_manager discipline number).keep stable)
      intro _
      apply Meets.bind discipline ((Respects.log discipline _ _ _).keep stable)
      intro _
      exact (traces_change (.verified version verified)
        (fun _ reached => ⟨complete, same verified isLast, reached.2⟩) fun _ => rfl).imp
          (fun _ => id) fun _ _ _ => trivial

/-- Whether a manager has come to a version, and may accept the snapshot from which the
verification of it begins, if there is one. -/
def CanBegin (number : Nat) (version : Int) (first : Option Verified) (session : Session) : Prop :=
  session.Reached number version ∧ ∀ verified, first = some verified →
    verified.compilation.version = version ∧ CanAccept number verified session

section Calls

variable (respect : services.Respect fun _ => Traces)

include respect

theorem traces_verifyUnit (version : Int) (unit : Declaration) :
    Respects (fun _ => Traces) (verifyUnit services number version unit) := by
  have recording : Respects (fun _ => Traces) (record (.verifying number version unit)) :=
    fun _ _ _ => ⟨.enter (by simp [Event.sparesManagers]) (by simp [Event.dispatch?]),
      fun _ _ => trivial⟩
  apply Respects.bind isDiscipline_traces recording
  intro _
  apply Respects.bind isDiscipline_traces (Respects.attempt (respect.verify unit))
  intro result
  cases result with
  | ok outcome => exact .pure isDiscipline_traces outcome
  | error message =>
      exact .bind isDiscipline_traces (respects_reportFailure isDiscipline_traces _ _)
        fun _ => .pure isDiscipline_traces _

/-- Verifying units in order accepts what has its provenance. -/
theorem traces_verifyUnits {former rest : List Declaration}
    (parts : verified.resolved.units = former ++ rest)
    (done : ∀ unit ∈ former, unit.key ∈ verified.results) :
    Meets (fun _ => Traces) (CanAccept number verified)
      (verifyUnits services number verified.compilation.version rest verified)
      fun last session => session.Reached number verified.compilation.version ∧
        ∀ reached, last = some reached → reached.resolved = verified.resolved := by
  have discipline := isDiscipline_traces
  -- Over the units still to come, all units before which have a result.
  induction rest generalizing former verified with
  | nil => exact .pure discipline fun _ can => ⟨can.1, by rintro _ ⟨⟩; rfl⟩
  | cons unit rest ih =>
      have stable := isStable_canAccept number verified
      have stop : Meets (fun _ => Traces) (CanAccept number verified)
          (pure (some verified)) fun last session =>
            session.Reached number verified.compilation.version ∧
              ∀ reached, last = some reached → reached.resolved = verified.resolved :=
        .pure discipline fun _ can => ⟨can.1, by rintro _ ⟨⟩; rfl⟩
      have parts : verified.resolved.units = former ++ [unit] ++ rest := by simpa using parts
      apply Meets.bind discipline ((respects_isCanceled discipline).keep stable)
      intro _
      apply Meets.ite stop
      split
      · rename_i isDone
        exact ih parts (by simpa [or_imp, forall_and] using ⟨done, isDone⟩)
      rename_i pending
      apply Meets.bind discipline ((traces_verifyUnit respect _ unit).keep stable)
      intro outcome
      apply Meets.bind discipline ((respects_isCanceled discipline).keep stable)
      intro _
      apply Meets.ite stop
      apply Meets.bind discipline ((traces_publishVerified (verified.withResult unit outcome)).imp
        (fun _ can => can.withResult (by simpa using parts) done pending outcome) fun _ _ => id)
      intro accepted
      refine .ite (ih parts ?_) (.pure discipline fun _ can => ⟨can.1, nofun⟩)
      intro other mem
      rw [Verified.mem_results_withResult]
      rcases List.mem_append.mp mem with mem | mem
      · exact Or.inr (done other mem)
      · exact Or.inl (by rw [List.mem_singleton.mp mem])

theorem traces_verifyFrom (version : Int) (first : Option Verified) :
    Meets (fun _ => Traces) (CanBegin number version first)
      (verifyFrom services number version first) fun _ _ => True := by
  cases first with
  | none =>
      exact (traces_finishVerification version (by simp)).imp (fun _ => And.left) fun _ _ => id
  | some verified =>
      intro session wellNumbered ⟨_, begins⟩
      obtain ⟨rfl, can⟩ := begins verified rfl
      suffices verifying : Meets (fun _ => Traces) (CanAccept number verified)
          (verifyFrom services number verified.compilation.version (some verified))
          fun _ _ => True from verifying session wellNumbered can
      refine Meets.bind isDiscipline_traces (traces_verifyUnits respect
        (List.nil_append verified.resolved.units).symm (by simp)) fun last => ?_
      intro after afterNumbered ⟨reached, kept⟩
      refine traces_finishVerification _ (fun final isFinal => ?_) after afterNumbered reached
      rw [Verified.compilation, kept final isFinal]
      rfl

/-- A verification that a manager allows accepts what has its provenance. -/
theorem traces_runVerification {version : Int} {begin : SessionM (Option Verified)}
    {session : Session} (wellNumbered : session.WellNumbered) (known : session.Knows number)
    (allowed : (session.manager number).Allows (.verificationBegun version))
    (begins : Meets (fun _ => Traces)
      (fun marked => marked.Reached number version ∧
        HasSeen number (session.manager number).latest marked.chronicle)
      begin (CanBegin number version)) :
    session.Traces ((runVerification services number version begin).run session).2 := by
  have marked : session.Traces (session.change number (.verificationBegun version)) :=
    .change known allowed fun _ => rfl
  have reached : (session.change number (.verificationBegun version)).Reached number version := by
    refine ⟨marked.evolves.mem_managers known, ?_⟩
    rw [Session.manager_change_self]
    exact Int.le_of_eq allowed.1
  have seen : HasSeen number (session.manager number).latest
      (session.change number (.verificationBegun version)).chronicle := by
    refine ⟨_, List.mem_append_right _ (List.mem_singleton_self _), ?_⟩
    simp [ChronicleEntry.latest, Manager.after]
  rw [runVerification_eq, run_bind, run_change]
  exact marked.trans (Meets.bind isDiscipline_traces begins (traces_verifyFrom respect version) _
    (marked.evolves.wellNumbered wellNumbered) ⟨reached, seen⟩).1

end Calls

theorem traces_startVerification (base : Resolved) :
    Meets (fun _ => Traces) (Reached number base.compilation.version)
      (startVerification number base) (CanBegin number base.compilation.version) := by
  apply Meets.bind isDiscipline_traces ((traces_publishVerified (.start base)).imp
    (fun _ reached => ⟨reached, fun _ => Verified.isInOrder_start base⟩) fun _ _ => id)
  intro accepted
  cases accepted with
  | false => exact .pure isDiscipline_traces fun _ can => ⟨can.1, nofun⟩
  | true => exact .pure isDiscipline_traces fun _ can => ⟨can.1, by rintro _ ⟨⟩; exact ⟨rfl, can⟩⟩

/-- A verification accepts what has its provenance. -/
theorem traces_verifyEverything (respect : services.Respect fun _ => Traces) (number : Nat) :
    Meets (fun _ => Traces) (Knows number) (verifyEverything services number)
      fun _ _ => True := by
  intro session wellNumbered known
  refine ⟨?_, fun _ _ => trivial⟩
  rcases run_verifyEverything_cases services number session with same | ⟨accepts, resolved⟩
  · rw [same]
    exact isDiscipline_traces.refl true session
  have unrefused := Manager.not_refuses_iff.mp accepts
  rcases resolved with ⟨base, latest, ran⟩ | ⟨partly, latest, ran⟩
  · rw [ran]
    rw [latest] at unrefused
    refine traces_runVerification respect wellNumbered known ⟨?_, ?_, unrefused⟩
      ((traces_startVerification base).imp (fun _ => And.left) fun _ _ => id)
    · rw [latest]
      rfl
    · simp [latest, Snapshot.stage, Stage.rank]
  · rw [ran]
    rw [latest] at unrefused
    refine traces_runVerification respect wellNumbered known ⟨?_, ?_, unrefused⟩
      (.pure isDiscipline_traces fun marked begun => ⟨begun.1, ?_⟩)
    · rw [latest]
      rfl
    · simp [latest, Snapshot.stage, Stage.rank]
    · rintro _ ⟨⟩
      exact ⟨rfl, begun.1, fun inOrder => inOrder partly (latest ▸ begun.2)⟩

end Verification

/-- Opening projects, updates and verification accept what has its provenance whenever the
services they call do. -/
theorem managersRespect_traces : ManagersRespect fun _ => Traces where
  openProject compilation wellNumbered := .openProject wellNumbered compilation
  update respect _ compilation := traces_update respect compilation
  verifyEverything respect number := traces_verifyEverything respect number

end SessionM

namespace Session

/-- Whatever is accepted in a run has its provenance. -/
theorem traced_run (options : Options) (n : Nat) (steps : List (Step n)) :
    Traced [] (run options n steps).2.chronicle := by
  rcases (related_run isDiscipline_traces SessionM.managersRespect_traces options n steps).traced
    with ⟨entries, chronicleEq, traced⟩
  obtain rfl : (run options n steps).2.chronicle = entries := chronicleEq
  exact traced

/-- What a manager resolves in a run is resolved from the trees that its update found. -/
theorem loadedFrom_run (options : Options) (n : Nat) (steps : List (Step n)) {number : Nat}
    {past later : List ChronicleEntry}
    (parts : (run options n steps).2.chronicle = past ++ later) {snapshot : Snapshot}
    (seen : HasSeen number snapshot past) {resolved : Resolved}
    (isResolved : snapshot.resolved? = some resolved) :
    ∃ origin former, former <+: past ∧
      UpdateBegan number resolved.compilation.version origin former ∧
      resolved.LoadedFrom origin := by
  have lineage := (occurs_run options n steps).hasLineage_of_seen parts seen
  rcases lineage.resolved resolved isResolved with ⟨entry, mem, accepted⟩
  rcases List.append_of_mem mem with ⟨former, latter, rfl⟩
  rw [List.append_assoc, List.cons_append] at parts
  rcases traced_run options n steps former entry _ parts number _ accepted with
    ⟨origin, began, loaded⟩
  exact ⟨origin, former, List.prefix_append _ _, began, loaded⟩

/-- What was ever the latest snapshot of a manager in a run was verified in order. -/
theorem isInOrder_run (options : Options) (n : Nat) (steps : List (Step n)) {number : Nat}
    {entries later : List ChronicleEntry}
    (parts : (run options n steps).2.chronicle = entries ++ later) {verified : Verified}
    (seen : HasSeen number (.verified verified) entries) : verified.IsInOrder := by
  have occurs := occurs_run options n steps
  -- Over the entries: when a snapshot is accepted, the ones before it are its provenance.
  induction entries using List.reverseRecOn generalizing later verified with
  | nil => simp [HasSeen] at seen
  | append_singleton entries entry ih =>
      have lineage := occurs.hasLineage_of_seen parts seen
      rcases lineage.itself (by simp [Snapshot.stage]) with ⟨other, mem, accepted⟩
      rw [List.append_assoc, List.singleton_append] at parts
      rcases List.mem_append.mp mem with mem | mem
      · exact ih parts ⟨other, mem,
          (occurs.isReachable.history.1.latest_of_accepted (by simp [parts, mem]) accepted).2⟩
      · obtain rfl := List.mem_singleton.mp mem
        exact traced_run options n steps entries other later parts number _ accepted
          fun _ => ih parts

end Session

end Proofline
