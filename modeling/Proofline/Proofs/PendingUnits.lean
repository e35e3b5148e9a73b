import Proofline.Project.Snapshot

/-!
# Pending units

Results are recorded by key, so of the units of a version that share a key only
the first one is ever verified. The units that are pending in a partly verified
version are the first of each key without a result; recording results for an
initial segment of them leaves the others pending.
-/

namespace Proofline

namespace Declaration

/-- The first declaration of each key. -/
def distinct : List Declaration → List Declaration
  | [] => []
  | unit :: rest => unit :: (distinct rest).filter fun other => other.key ≠ unit.key

theorem mem_keys_distinct (units : List Declaration) (key : UnitKey) :
    key ∈ (distinct units).map Declaration.key ↔ key ∈ units.map Declaration.key := by
  induction units with
  | nil => rfl
  | cons unit rest ih =>
      rw [distinct, List.map_cons, List.map_cons, List.mem_cons, List.mem_cons, ← ih]
      simp only [List.mem_map, List.mem_filter, decide_eq_true_eq]
      constructor
      · rintro (same | ⟨other, ⟨mem, _⟩, keyEq⟩)
        · exact Or.inl same
        · exact Or.inr ⟨other, mem, keyEq⟩
      · rintro (same | ⟨other, mem, keyEq⟩)
        · exact Or.inl same
        · by_cases same : other.key = unit.key
          · exact Or.inl (keyEq.symm.trans same)
          · exact Or.inr ⟨other, ⟨mem, same⟩, keyEq⟩

theorem nodup_keys_distinct (units : List Declaration) :
    ((distinct units).map Declaration.key).Nodup := by
  induction units with
  | nil => exact .nil
  | cons unit rest ih =>
      rw [distinct, List.map_cons, List.nodup_cons]
      refine ⟨?_, ih.sublist (List.filter_sublist.map Declaration.key)⟩
      simp

theorem length_distinct_le (units : List Declaration) :
    (distinct units).length ≤ units.length := by
  induction units with
  | nil => exact Nat.le_refl 0
  | cons unit rest ih =>
      have fewer := List.length_filter_le (fun other => other.key ≠ unit.key) (distinct rest)
      simp only [distinct, List.length_cons]
      omega

/-- No declaration is left out exactly when all keys are different. -/
theorem length_distinct_eq_iff (units : List Declaration) :
    (distinct units).length = units.length ↔ (units.map Declaration.key).Nodup := by
  induction units with
  | nil => simp [distinct]
  | cons unit rest ih =>
      rw [List.map_cons, List.nodup_cons, ← ih, ← mem_keys_distinct]
      have fewer := List.length_filter_le (fun other => other.key ≠ unit.key) (distinct rest)
      have atMost := length_distinct_le rest
      have kept : ((distinct rest).filter fun other => other.key ≠ unit.key).length =
          (distinct rest).length ↔ unit.key ∉ (distinct rest).map Declaration.key := by
        rw [List.length_filter_eq_length_iff]
        simp only [decide_eq_true_eq, List.mem_map, not_exists, not_and]
      simp only [distinct, List.length_cons]
      constructor
      · intro same
        exact ⟨kept.mp (by omega), by omega⟩
      · rintro ⟨new, same⟩
        have all := kept.mpr new
        omega

end Declaration

namespace Verified

open Declaration (distinct)

/-- The units that are still to be verified, in order. -/
def pending (verified : Verified) (units : List Declaration) : List Declaration :=
  (distinct units).filter fun unit => unit.key ∉ verified.results

/-- The version with results recorded one after the other. -/
def record (verified : Verified) (recorded : List (Declaration × Outcome)) : Verified :=
  recorded.foldl (fun partly entry => partly.withResult entry.1 entry.2) verified

variable {verified : Verified} {unit : Declaration} {rest units : List Declaration}

@[simp]
theorem record_nil (verified : Verified) : verified.record [] = verified :=
  rfl

theorem record_append (verified : Verified) (first second : List (Declaration × Outcome)) :
    verified.record (first ++ second) = (verified.record first).record second :=
  List.foldl_append

theorem mem_results_withResult (verified : Verified) (unit : Declaration) (outcome : Outcome)
    (key : UnitKey) :
    key ∈ (verified.withResult unit outcome).results ↔
      unit.key = key ∨ key ∈ verified.results := by
  simp [withResult, Std.ExtTreeMap.mem_insert]

@[simp]
theorem pending_start (resolved : Resolved) (units : List Declaration) :
    (start resolved).pending units = distinct units := by
  simp [pending, start]

theorem pending_cons_of_mem (done : unit.key ∈ verified.results) :
    verified.pending (unit :: rest) = verified.pending rest := by
  rw [pending, distinct, List.filter_cons_of_neg (by simpa using done), List.filter_filter]
  refine List.filter_congr fun other _ => ?_
  by_cases same : other.key = unit.key <;> simp [same, done]

theorem pending_cons_of_not_mem (notDone : unit.key ∉ verified.results) (outcome : Outcome) :
    verified.pending (unit :: rest) =
      unit :: (verified.withResult unit outcome).pending rest := by
  rw [pending, distinct, List.filter_cons_of_pos (by simpa using notDone), List.filter_filter]
  congr 1
  refine List.filter_congr fun other _ => ?_
  simp only [mem_results_withResult]
  grind

@[simp]
theorem resolved_record (verified : Verified) (recorded : List (Declaration × Outcome)) :
    (verified.record recorded).resolved = verified.resolved := by
  induction recorded generalizing verified with
  | nil => rfl
  | cons entry rest ih => exact ih (verified.withResult entry.1 entry.2)

@[simp]
theorem compilation_record (verified : Verified) (recorded : List (Declaration × Outcome)) :
    (verified.record recorded).compilation = verified.compilation :=
  congrArg Resolved.compilation (resolved_record verified recorded)

theorem mem_results_record (verified : Verified) (recorded : List (Declaration × Outcome))
    (key : UnitKey) :
    key ∈ (verified.record recorded).results ↔
      key ∈ (recorded.map Prod.fst).map Declaration.key ∨ key ∈ verified.results := by
  induction recorded generalizing verified with
  | nil => simp
  | cons entry rest ih =>
      change key ∈ ((verified.withResult entry.1 entry.2).record rest).results ↔ _
      rw [ih, mem_results_withResult]
      simp only [List.map_cons, List.mem_cons]
      grind

theorem nodup_keys_pending (verified : Verified) (units : List Declaration) :
    ((verified.pending units).map Declaration.key).Nodup :=
  (Declaration.nodup_keys_distinct units).sublist (List.filter_sublist.map Declaration.key)

/-- Each result recorded for a pending unit counts. -/
theorem completed_record {recorded : List (Declaration × Outcome)}
    (inOrder : recorded.map Prod.fst <+: verified.pending units) :
    (verified.record recorded).completed = verified.completed + recorded.length := by
  have different := (nodup_keys_pending verified units).sublist
    (inOrder.sublist.map Declaration.key)
  have areOpen : ∀ entry ∈ recorded, entry.1.key ∉ verified.results := by
    intro entry mem
    have isPending := inOrder.subset (List.mem_map_of_mem mem)
    simpa using (List.mem_filter.mp isPending).2
  -- That the units come in order is too much to keep: they need only be different and open.
  clear inOrder
  induction recorded generalizing verified with
  | nil => rfl
  | cons entry rest ih =>
      rw [List.map_cons, List.map_cons, List.nodup_cons] at different
      have counted : (verified.withResult entry.1 entry.2).completed =
          verified.completed + 1 := by
        simp only [withResult, if_neg (areOpen entry (by simp))]
      have restOpen : ∀ other ∈ rest,
          other.1.key ∉ (verified.withResult entry.1 entry.2).results := by
        intro other mem
        rw [mem_results_withResult]
        rintro (same | done)
        · exact different.1 (same ▸ List.mem_map_of_mem (List.mem_map_of_mem mem))
        · exact areOpen other (by simp [mem]) done
      change ((verified.withResult entry.1 entry.2).record rest).completed = _
      rw [ih different.2 restOpen, counted, List.length_cons]
      omega

/-- The units after those for which results are recorded stay pending. -/
theorem pending_record {recorded : List (Declaration × Outcome)}
    (inOrder : recorded.map Prod.fst <+: verified.pending units) :
    recorded.map Prod.fst ++ (verified.record recorded).pending units =
      verified.pending units := by
  have split : (verified.record recorded).pending units =
      (verified.pending units).filter fun unit =>
        unit.key ∉ (recorded.map Prod.fst).map Declaration.key := by
    rw [pending, pending, List.filter_filter]
    refine List.filter_congr fun other _ => ?_
    simp only [mem_results_record]
    grind
  have different := nodup_keys_pending verified units
  rcases inOrder with ⟨others, parts⟩
  rw [split, ← parts]
  rw [← parts, List.map_append, List.nodup_append] at different
  rw [List.filter_append]
  have removed : ((recorded.map Prod.fst).filter fun unit =>
      unit.key ∉ (recorded.map Prod.fst).map Declaration.key) = [] := by
    rw [List.filter_eq_nil_iff]
    intro unit mem
    simpa using List.mem_map_of_mem (f := Declaration.key) mem
  have kept : (others.filter fun unit =>
      unit.key ∉ (recorded.map Prod.fst).map Declaration.key) = others := by
    rw [List.filter_eq_self]
    intro unit mem
    have apart := different.2.2
    simp only [decide_eq_true_eq]
    intro done
    exact apart _ done _ (List.mem_map_of_mem mem) rfl
  rw [removed, kept, List.nil_append]

end Verified

end Proofline
