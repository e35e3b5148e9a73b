import Proofline.Proofs.EnclosingModule
import Proofline.Proofs.Lineage

/-!
# Calls of the resolver and the verifier

The resolver is called for programs whose parse reported no error. The verifier is called
by a manager for the version it has come to, for units without a result that are eligible in
a program without errors from before the late subsystems. However steps nest, nothing of a
version with parse errors gets as far, and nothing of an older version does any more once
there is a newer one.
-/

namespace Proofline

/-- Whether nothing that was reported to a journal is recorded as an error. -/
def IsErrorFree (options : Options) (journal : Nat) (entries : List ChronicleEntry) : Prop :=
  ∀ report ∈ reportsTo journal entries, report.isError options = false

/-- Whether nothing that was reported to a journal is recorded as an error from before the
late subsystems. -/
def IsEarlyErrorFree (options : Options) (journal : Nat) (entries : List ChronicleEntry) : Prop :=
  ∀ report ∈ reportsTo journal entries, report.isEarlyError options = false

/-- Whether a version that was verified in part calls for the verification of a unit. -/
structure Verified.CallsFor (options : Options) (number : Nat) (past : List ChronicleEntry)
    (version : Int) (unit : Declaration) (partly : Verified) : Prop where
  current : partly.compilation.version = version
  pending : unit.key ∉ partly.results
  eligible : ∃ program, partly.resolved.parsed.program.module = some program ∧
    Declaration.IsEligible partly.compilation program unit
  /-- The version was parsed, and had no errors when the resolver was called for it. -/
  resolved : ∃ first begun rest, past = first ++ begun :: rest ∧
    begun.event = .resolving partly.compilation.project partly.resolved.parsed.program.journal ∧
    HasAccepted number (.parsed partly.resolved.parsed) first ∧
    IsErrorFree options partly.resolved.parsed.program.journal first
  /-- It had no errors from before the late subsystems until its units were collected and it
  was accepted as resolved. -/
  collected : ∃ first accepted rest, past = first ++ accepted :: rest ∧
    accepted.event.accepted? number = some (.resolved partly.resolved) ∧
    IsEarlyErrorFree options partly.resolved.parsed.program.journal first

/-- How the resolver and the verifier are called according to a chronicle. -/
structure CallsRightly (options : Options) (number : Nat) (chronicle : List ChronicleEntry) :
    Prop where
  verifier : ∀ past entry later, chronicle = past ++ entry :: later →
    ∀ version unit, entry.event = .verifying number version unit →
      ∃ partly, entry.latest number = .verified partly ∧
        partly.CallsFor options number past version unit
  resolver : ∀ past entry later, chronicle = past ++ entry :: later →
    ∀ project journal, entry.event = .resolving project journal →
      IsErrorFree options journal past
  /-- Once a version is parsed with errors, the resolver is not called for it and the verifier
  not for any of its units. -/
  erroneous : ∀ past entry later, chronicle = past ++ entry :: later →
    ∀ parsed, entry.event.accepted? number = some (.parsed parsed) →
      ¬HasAccepted number (.parsed parsed) past →
      ¬IsErrorFree options parsed.program.journal past →
      ∀ other ∈ later,
        (∀ project, other.event ≠ .resolving project parsed.program.journal) ∧
        ∀ version unit, other.event = .verifying number version unit →
          (other.latest number).parsed? ≠ some parsed
  /-- Once a version is accepted, the verifier is not called for units of older ones. -/
  superseded : ∀ past entry later, chronicle = past ++ entry :: later →
    ∀ snapshot : Snapshot, entry.event.accepted? number = some snapshot →
      ∀ other ∈ later, ∀ version unit, other.event = .verifying number version unit →
        snapshot.version ≤ version

/-- Where a resolved version has units, no error from before the late subsystems was reported
of it, and its units are the eligible declarations of its program. -/
theorem Resolved.HasWarrant.of_mem_units {number : Nat} {options : Options}
    {past : List ChronicleEntry} {resolved : Resolved}
    (warrant : resolved.HasWarrant number options past) {unit : Declaration}
    (mem : unit ∈ resolved.units) :
    IsEarlyErrorFree options resolved.parsed.program.journal past ∧
      ∃ program, resolved.parsed.program.module = some program ∧
        Declaration.IsEligible resolved.compilation program unit := by
  rcases warrant.units with none_found | ⟨allowed, collected⟩
  · simp [none_found] at mem
  constructor
  · intro report reported
    by_contra isError
    exact allowed ⟨report, reported, by simpa using isError⟩
  · exact (Declaration.mem_iff_of_collectUnits? collected unit).mp mem

namespace Session.Arises

variable {session : Session} {number : Nat} {past later : List ChronicleEntry}
  {entry : ChronicleEntry}

/-- When the resolver is called for a program, no error was reported of it. -/
theorem isErrorFree (arises : session.Arises)
    (parts : session.chronicle = past ++ entry :: later) {project : String} {journal : Nat}
    (isCall : entry.event = .resolving project journal) :
    IsErrorFree session.options journal past := by
  have warrant := arises.hasWarrant parts
  rwa [isCall] at warrant

/-- A resolved version was parsed before the resolver was called for it. -/
theorem resolved_of_begun (arises : session.Arises) (parts : session.chronicle = past ++ later)
    {parsed : Parsed} (begun : HasBegunResolving number (.parsed parsed) parsed past) :
    ∃ first begun rest, past = first ++ begun :: rest ∧
      begun.event = .resolving parsed.compilation.project parsed.program.journal ∧
      HasAccepted number (.parsed parsed) first ∧
      IsErrorFree session.options parsed.program.journal first := by
  rcases begun with ⟨begun, mem, isLatest, isCall⟩
  rcases List.append_of_mem mem with ⟨first, rest, rfl⟩
  rw [List.append_assoc, List.cons_append] at parts
  refine ⟨first, begun, rest, rfl, isCall, ?_, arises.isErrorFree parts isCall⟩
  rw [arises.occurs.latest_of_spares parts (by rw [isCall]; rfl)] at isLatest
  exact (arises.occurs.hasLineage number first _ parts).parsed parsed (by rw [isLatest]; rfl)

/-- When the verifier is called for a unit, the latest snapshot calls for it. -/
theorem callsFor (arises : session.Arises) (parts : session.chronicle = past ++ entry :: later)
    {version : Int} {unit : Declaration} (isCall : entry.event = .verifying number version unit) :
    ∃ partly, entry.latest number = .verified partly ∧
      partly.CallsFor session.options number past version unit := by
  have grounds := arises.occurs.hasGrounds parts
  rw [isCall] at grounds
  rcases grounds with ⟨_, partly, isLatest, current, mem, pending⟩
  change latestAfter number past = .verified partly at isLatest
  have lineage := arises.occurs.hasLineage number past _ parts
  rw [isLatest] at lineage
  rcases lineage.resolved partly.resolved rfl with ⟨accepted, acceptedMem, isAccepted⟩
  rcases List.append_of_mem acceptedMem with ⟨first, rest, rfl⟩
  rw [List.append_assoc, List.cons_append] at parts
  have warrant : partly.resolved.HasWarrant number session.options first :=
    arises.hasWarrant_of_accepted parts isAccepted
  rcases warrant.of_mem_units mem with ⟨clean, eligible⟩
  rcases arises.resolved_of_begun parts warrant.begun with
    ⟨earlier, begun, between, rfl, isBegun, wasParsed, errorFree⟩
  have parts' : session.chronicle =
      (earlier ++ begun :: between ++ accepted :: rest) ++ entry :: later := by simp [parts]
  refine ⟨partly, ?_, current, pending, eligible, ?_, ?_⟩
  · rw [arises.occurs.latest_of_spares parts' (by rw [isCall]; rfl)]
    exact isLatest
  · exact ⟨earlier, begun, between ++ accepted :: rest, by simp, isBegun, wasParsed, errorFree⟩
  · exact ⟨_, accepted, rest, rfl, isAccepted, clean⟩

/-- A version that is parsed with errors goes no further. -/
theorem unverified_of_error (arises : session.Arises)
    (parts : session.chronicle = past ++ entry :: later) {parsed : Parsed}
    (new : ¬HasAccepted number (.parsed parsed) past)
    (error : ¬IsErrorFree session.options parsed.program.journal past) {other : ChronicleEntry}
    (mem : other ∈ later) {version : Int} {unit : Declaration}
    (isCall : other.event = .verifying number version unit) :
    (other.latest number).parsed? ≠ some parsed := by
  intro isParsed
  rcases List.append_of_mem mem with ⟨between, rest, rfl⟩
  have split : session.chronicle = (past ++ entry :: between) ++ other :: rest := by simp [parts]
  rcases arises.callsFor split isCall with ⟨partly, isLatest, calls⟩
  rw [isLatest] at isParsed
  obtain rfl := Option.some.inj isParsed
  rcases calls.resolved with ⟨first, begun, _, whole, _, wasParsed, errorFree⟩
  -- The version was accepted before the resolver was called, so not before its errors.
  have beyond : first <+: past ++ entry :: between := ⟨_, whole.symm⟩
  rcases List.prefix_or_prefix_of_prefix beyond (List.prefix_append past _) with
    ⟨missing, rfl⟩ | ⟨further, rfl⟩
  · exact new (wasParsed.append missing)
  · apply error
    intro report reported
    apply errorFree report
    rw [reportsTo_append]
    exact List.mem_append_left _ reported

theorem callsRightly (arises : session.Arises) (number : Nat) :
    CallsRightly session.options number session.chronicle where
  verifier _ _ _ parts _ _ isCall := arises.callsFor parts isCall
  resolver _ _ _ parts _ _ isCall := arises.isErrorFree parts isCall
  erroneous past entry later parts parsed isAccepted new error other mem := by
    refine ⟨fun project isCall => ?_, fun version unit isCall =>
      arises.unverified_of_error parts new error mem isCall⟩
    rcases List.append_of_mem mem with ⟨between, rest, rfl⟩
    have split : session.chronicle = (past ++ entry :: between) ++ other :: rest := by
      simp [parts]
    apply error
    intro report reported
    apply arises.isErrorFree split isCall report
    rw [reportsTo_append]
    exact List.mem_append_left _ reported
  superseded past entry later parts snapshot isAccepted other mem version unit isCall := by
    have history := arises.occurs.isReachable.history.1
    have accepted := history.latest_of_accepted (by simp [parts]) isAccepted
    have reached := (history.split parts).2.le_version_latest accepted.1
      (Int.le_of_eq (congrArg Snapshot.version accepted.2).symm) mem
    rcases List.append_of_mem mem with ⟨between, rest, rfl⟩
    have split : session.chronicle = (past ++ entry :: between) ++ other :: rest := by
      simp [parts]
    rcases arises.callsFor split isCall with ⟨partly, isLatest, calls⟩
    rw [isLatest] at reached
    exact calls.current ▸ reached

end Session.Arises

/-- In every run the resolver and the verifier are called for what is due only. -/
theorem Session.callsRightly_run (options : Options) (n : Nat) (steps : List (Step n))
    (number : Nat) : CallsRightly options number (run options n steps).2.chronicle := by
  have calls := (arises_run options n steps).callsRightly number
  rwa [options_run] at calls

end Proofline
