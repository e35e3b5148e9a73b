import Proofline.Proofs.History

/-!
# What settles versions

A manager settles a version when an update gives it up, and when a verification
of it comes to its end. The newest settled version only grows, and is never newer
than the latest version. The latest version therefore counts as settled exactly
when it was verified in full, when an update gave it up at some time, or when it is
older than any version that could be settled.
-/

namespace Proofline

/-- The version that an update of a manager gives up at an event. -/
def Event.gaveUp? (number : Nat) : Event → Option Int
  | .changed manager (.gaveUp version _) => if manager = number then some version else none
  | _ => none

/-- Whether an update of a manager gave a version up. -/
def GaveUp (number : Nat) (version : Int) (entries : List ChronicleEntry) : Prop :=
  ∃ entry ∈ entries, entry.event.gaveUp? number = some version

instance (number : Nat) (version : Int) (entries : List ChronicleEntry) :
    Decidable (GaveUp number version entries) :=
  inferInstanceAs (Decidable (∃ entry ∈ _, _))

theorem gaveUp_append_singleton (number : Nat) (version : Int) (entries : List ChronicleEntry)
    (entry : ChronicleEntry) :
    GaveUp number version (entries ++ [entry]) ↔
      GaveUp number version entries ∨ entry.event.gaveUp? number = some version := by
  simp [GaveUp, or_and_right, exists_or]

namespace Manager

@[simp]
theorem settled_settle (manager : Manager) (version : Int) (verified : Option Verified) :
    (manager.settle version verified).settled = max manager.settled version :=
  rfl

@[simp]
theorem latest_settle (manager : Manager) (version : Int) (verified : Option Verified) :
    (manager.settle version verified).latest = manager.latest :=
  rfl

/-- Of two versions verified in full the newer one is kept. -/
theorem lastVerified_settle (manager : Manager) (version : Int) (verified : Verified) :
    (manager.settle version (some verified)).lastVerified = some verified ∧
        (∀ last, manager.lastVerified = some last → last.compilation.version ≤ version) ∨
      ∃ last, (manager.settle version (some verified)).lastVerified = some last ∧
        manager.lastVerified = some last ∧ version < last.compilation.version := by
  unfold settle
  cases manager.lastVerified with
  | none => exact Or.inl ⟨rfl, by simp⟩
  | some last =>
      by_cases newer : last.compilation.version ≤ version
      · exact Or.inl ⟨if_pos newer, by simpa using newer⟩
      · exact Or.inr ⟨last, if_neg newer, rfl, Int.not_le.mp newer⟩

end Manager

/-- Whether the latest version of a manager is the newest one that was verified in
full. -/
def Manager.IsVerified (manager : Manager) : Prop :=
  manager.lastVerified.map (fun last => last.compilation.version) = some manager.latest.version

instance (manager : Manager) : Decidable manager.IsVerified :=
  inferInstanceAs (Decidable (_ = _))

/-- What the settled version of a manager is due to, after the given entries. -/
structure Accounted (number : Nat) (entries : List ChronicleEntry) (manager : Manager) :
    Prop where
  least : -1 ≤ manager.settled
  bounded : manager.settled = -1 ∨ manager.settled ≤ manager.latest.version
  /-- Nothing that was verified or given up is newer than the settled version. -/
  verified : ∀ last, manager.lastVerified = some last →
    last.complete = true ∧ last.compilation.version ≤ manager.settled
  gaveUp : ∀ version, GaveUp number version entries → version ≤ manager.settled
  cause : manager.settled = -1 ∨ GaveUp number manager.settled entries ∨
    manager.lastVerified.map (fun last => last.compilation.version) = some manager.settled

namespace Accounted

variable {number : Nat} {entries : List ChronicleEntry} {manager : Manager}
  {entry : ChronicleEntry}

/-- Nothing is settled at the start. -/
theorem initial (number : Nat) (manager : Manager) (unsettled : manager.settled = -1)
    (unverified : manager.lastVerified = none)
    (none_given : ∀ version, GaveUp number version entries → version ≤ -1) :
    Accounted number entries manager where
  least := Int.le_of_eq unsettled.symm
  bounded := Or.inl unsettled
  verified _ isLast := by simp [unverified] at isLast
  gaveUp version given := unsettled ▸ none_given version given
  cause := Or.inl unsettled

/-- Nothing is settled by an event that leaves the settled version as it is. -/
theorem of_same {after : Manager} (accounted : Accounted number entries manager)
    (settled : after.settled = manager.settled)
    (lastVerified : after.lastVerified = manager.lastVerified)
    (versions : manager.latest.version ≤ after.latest.version)
    (silent : entry.event.gaveUp? number = none) :
    Accounted number (entries ++ [entry]) after where
  least := settled ▸ accounted.least
  bounded := by
    rw [settled]
    exact accounted.bounded.imp_right fun atMost => Int.le_trans atMost versions
  verified last isLast := by
    rw [settled]
    exact accounted.verified last (lastVerified ▸ isLast)
  gaveUp version given := by
    rw [settled]
    rcases (gaveUp_append_singleton ..).mp given with given | isGivenUp
    · exact accounted.gaveUp version given
    · simp [silent] at isGivenUp
  cause := by
    rw [settled, lastVerified, gaveUp_append_singleton]
    exact accounted.cause.imp_right (Or.imp_left Or.inl)

/-- A version is given up. -/
theorem giveUp (accounted : Accounted number entries manager) {version : Int}
    (event : entry.event.gaveUp? number = some version)
    (reached : version ≤ manager.latest.version) :
    Accounted number (entries ++ [entry]) (manager.settle version none) where
  least := Int.le_trans accounted.least (Int.le_max_left _ _)
  bounded := by
    have least := accounted.least
    have bounded := accounted.bounded
    simp only [Manager.settled_settle, Manager.latest_settle]
    omega
  verified last isLast := by
    have wasVerified := accounted.verified last isLast
    exact ⟨wasVerified.1, Int.le_trans wasVerified.2 (Int.le_max_left _ _)⟩
  gaveUp other given := by
    rcases (gaveUp_append_singleton ..).mp given with given | isGivenUp
    · exact Int.le_trans (accounted.gaveUp other given) (Int.le_max_left _ _)
    · obtain rfl := Option.some.inj (event.symm.trans isGivenUp)
      exact Int.le_max_right _ _
  cause := by
    rw [gaveUp_append_singleton]
    rcases Int.le_total manager.settled version with newer | older
    · refine Or.inr (Or.inl (Or.inr ?_))
      rw [Manager.settled_settle, Int.max_eq_right newer]
      exact event
    · rw [Manager.settled_settle, Int.max_eq_left older]
      exact accounted.cause.imp_right (Or.imp_left Or.inl)

/-- A version is verified in full. -/
theorem verify (accounted : Accounted number entries manager) {verified : Verified}
    (complete : verified.complete = true)
    (reached : verified.compilation.version ≤ manager.latest.version)
    (silent : entry.event.gaveUp? number = none) :
    Accounted number (entries ++ [entry])
      (manager.settle verified.compilation.version (some verified)) := by
  have kept := manager.lastVerified_settle verified.compilation.version verified
  constructor
  · exact Int.le_trans accounted.least (Int.le_max_left _ _)
  · have least := accounted.least
    have bounded := accounted.bounded
    simp only [Manager.settled_settle, Manager.latest_settle]
    omega
  · intro last isLast
    rcases kept with ⟨same, _⟩ | ⟨former, same, isFormer, _⟩
    · obtain rfl := Option.some.inj (same.symm.trans isLast)
      exact ⟨complete, Int.le_max_right _ _⟩
    · obtain rfl := Option.some.inj (same.symm.trans isLast)
      have wasVerified := accounted.verified former isFormer
      exact ⟨wasVerified.1, Int.le_trans wasVerified.2 (Int.le_max_left _ _)⟩
  · intro other given
    rcases (gaveUp_append_singleton ..).mp given with given | isGivenUp
    · exact Int.le_trans (accounted.gaveUp other given) (Int.le_max_left _ _)
    · simp [silent] at isGivenUp
  · rw [Manager.settled_settle, gaveUp_append_singleton]
    rcases kept with ⟨same, atMost⟩ | ⟨former, same, isFormer, newer⟩
    · rcases Int.lt_or_le manager.settled verified.compilation.version with newer | older
      · rw [Int.max_eq_right (Int.le_of_lt newer), same]
        exact Or.inr (Or.inr rfl)
      · rw [Int.max_eq_left older]
        rcases accounted.cause with none_settled | given | isSettled
        · exact Or.inl none_settled
        · exact Or.inr (Or.inl (Or.inl given))
        · rcases Option.map_eq_some_iff.mp isSettled with ⟨last, isLast, lastSettled⟩
          have wasNewer := atMost last isLast
          refine Or.inr (Or.inr ?_)
          rw [same, Option.map_some, Int.le_antisymm older (lastSettled ▸ wasNewer)]
    · have atMost := (accounted.verified former isFormer).2
      rw [Int.max_eq_left (by omega), same, ← isFormer]
      exact accounted.cause.imp_right (Or.imp_left Or.inl)

/-- What happens to a manager keeps its settled version accounted for. -/
theorem after (accounted : Accounted number entries manager) {change : Change}
    (allowed : manager.Allows change) (event : entry.event = .changed number change) :
    Accounted number (entries ++ [entry]) (manager.after change) := by
  cases change with
  | accepted snapshot =>
      refine accounted.of_same rfl rfl ?_ (by rw [event]; rfl)
      have kept := Manager.not_precedes_after allowed
      unfold Snapshot.Precedes at kept
      omega
  | updateBegun | updateEnded | verificationBegun =>
      exact accounted.of_same rfl rfl (Int.le_refl _) (by rw [event]; rfl)
  | verificationEnded version =>
      simp only [Manager.after]
      split
      · exact accounted.of_same rfl rfl (Int.le_refl _) (by rw [event]; rfl)
      · exact accounted.of_same rfl rfl (Int.le_refl _) (by rw [event]; rfl)
  | gaveUp version status =>
      exact accounted.giveUp (by rw [event, Event.gaveUp?, if_pos rfl]) allowed
  | verified version snapshot =>
      rcases allowed with ⟨complete, rfl, reached⟩
      exact accounted.verify complete reached (by rw [event]; rfl)

/-- The latest version counts as settled exactly when it was verified, when it is
negative, or when it was given up. -/
theorem version_le_settled_iff (accounted : Accounted number entries manager) :
    manager.latest.version ≤ manager.settled ↔
      manager.IsVerified ∨ manager.latest.version < 0 ∨
        GaveUp number manager.latest.version entries := by
  have least := accounted.least
  constructor
  · intro settled
    rcases accounted.bounded with none_settled | atMost
    · exact Or.inr (Or.inl (by omega))
    · have same : manager.settled = manager.latest.version := Int.le_antisymm atMost settled
      rcases accounted.cause with none_settled | given | isSettled
      · exact Or.inr (Or.inl (by omega))
      · exact Or.inr (Or.inr (same ▸ given))
      · exact Or.inl (isSettled.trans (congrArg some same))
  · rintro (verified | negative | given)
    · rcases Option.map_eq_some_iff.mp verified with ⟨last, isLast, isSettled⟩
      exact isSettled ▸ (accounted.verified last isLast).2
    · omega
    · exact accounted.gaveUp _ given

end Accounted

/-- Along a history that begins without managers, every settled version is
accounted for. -/
theorem History.accounted {managers : Table Nat Manager} {entries : List ChronicleEntry}
    (history : History ∅ entries managers) (number : Nat) :
    Accounted number entries (managers.getD number default) := by
  generalize begins : (∅ : Table Nat Manager) = first at history
  -- Until it is opened a manager counts as the default one, which has settled nothing.
  induction history with
  | refl =>
      subst begins
      rw [Std.ExtTreeMap.getD_eq_fallback (by simp)]
      refine .initial number _ rfl rfl ?_
      rintro version ⟨entry, mem, _⟩
      simp at mem
  | @step _ _ _ event depth earlier next accounted =>
      cases next with
      | spared spares =>
          refine accounted.of_same rfl rfl (Int.le_refl _) ?_
          cases event with
          | changed _ _ => simp [Event.sparesManagers] at spares
          | _ => rfl
      | @opened opened compilation new =>
          by_cases same : opened = number
          · subst same
            rw [Std.ExtTreeMap.getD_eq_fallback new] at accounted
            rw [Std.ExtTreeMap.getD_insert_self]
            refine .initial opened _ rfl rfl fun version given => ?_
            rcases (gaveUp_append_singleton ..).mp given with given | isGivenUp
            · exact accounted.gaveUp version given
            · cases isGivenUp
          · rw [Std.ExtTreeMap.getD_insert, if_neg (by simpa using same)]
            exact accounted.of_same rfl rfl (Int.le_refl _) rfl
      | @changed changed change known allowed =>
          by_cases same : changed = number
          · subst same
            rw [Std.ExtTreeMap.getD_insert_self]
            exact accounted.after allowed rfl
          · rw [Std.ExtTreeMap.getD_insert, if_neg (by simpa using same)]
            refine accounted.of_same rfl rfl (Int.le_refl _) ?_
            cases change with
            | gaveUp version status => exact if_neg same
            | _ => rfl

end Proofline
