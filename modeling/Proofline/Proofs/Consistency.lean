import Proofline.Proofs.AwaitedVersions
import Proofline.Proofs.NodeOrder
import Proofline.Proofs.RecordedResults
import Proofline.Proofs.Tracing
import Proofline.Proofs.TreeContents
import Proofline.Proofs.VerifierCalls

/-!
# The views of the outcomes agree

A verified snapshot tells the outcomes of its units in several places: it counts them, records
them by key, lists their models and shows them in the progress trees. Recording an outcome
changes all of these at once but counts, lists and shows what was recorded for the same key
before as well. In every run the views agree all the same, for results are recorded in order
and only for units without one, however often verification is canceled and taken up again.
-/

namespace Proofline

open Declaration (distinct)

/-- The result that is recorded of an outcome. -/
def Outcome.result (unit : Declaration) (outcome : Outcome) : UnitResult where
  name := unit.name
  status := outcome.status
  models := outcome.models

/-- The node that shows a result. -/
def UnitResult.node (range : Range) (result : UnitResult) : ProgressNode where
  name := result.name
  range
  status := result.status

/-- Whether trees are other ones, of the same documents, in which results are shown at their
ranges. -/
def ProgressTrees.Show (results : Table UnitKey UnitResult) (first last : ProgressTrees) : Prop :=
  ∀ uri, Option.Rel
    (fun former latter => ∀ range, latter.find? range =
      (results[({ uri, range } : UnitKey)]?.map (UnitResult.node range)).or (former.find? range))
    first[uri]? last[uri]?

namespace ProgressTrees.Show

variable {results : Table UnitKey UnitResult} {first last : ProgressTrees}

theorem refl (trees : ProgressTrees) : trees.Show ∅ trees := by
  intro uri
  cases trees[uri]? with
  | none => exact .none
  | some tree => exact .some fun range => by simp

/-- A tree has another one in which the results are shown. -/
theorem exists_latter (shows : first.Show results last) {uri : String} {former : ProgressTree}
    (found : first[uri]? = some former) : ∃ latter, last[uri]? = some latter ∧
      ∀ range, latter.find? range =
        (results[({ uri, range } : UnitKey)]?.map (UnitResult.node range)).or
          (former.find? range) := by
  have related := shows uri
  rw [found] at related
  generalize last[uri]? = latter at related ⊢
  cases related with
  | some told => exact ⟨_, rfl, told⟩

/-- A tree in which results are shown comes from another one. -/
theorem exists_former (shows : first.Show results last) {uri : String} {latter : ProgressTree}
    (found : last[uri]? = some latter) : ∃ former, first[uri]? = some former ∧
      ∀ range, latter.find? range =
        (results[({ uri, range } : UnitKey)]?.map (UnitResult.node range)).or
          (former.find? range) := by
  have related := shows uri
  rw [found] at related
  generalize first[uri]? = former at related ⊢
  cases related with
  | some told => exact ⟨_, rfl, told⟩

theorem recordStatus (shows : first.Show results last) (unit : Declaration) (outcome : Outcome) :
    first.Show (results.insert unit.key (outcome.result unit))
      (Verified.recordStatus last unit outcome.status) := by
  refine rel_recordStatus shows (fun grows range => ?_) fun ne grows range => ?_
  · rw [Std.ExtTreeMap.getElem?_insert]
    by_cases same : unit.range = range
    · subst same
      rw [ProgressTree.find?_withNode_self]
      simp [Declaration.key, UnitResult.node, Outcome.result]
    · rw [ProgressTree.find?_withNode_of_ne _ _ same]
      simpa [Declaration.key, same] using grows range
  · rw [Std.ExtTreeMap.getElem?_insert]
    simpa [Declaration.key, ne] using grows range

end ProgressTrees.Show

namespace Declaration

/-- Of the units with a key, the first one is kept. -/
theorem find?_of_mem_distinct {units : List Declaration} {unit : Declaration}
    (mem : unit ∈ distinct units) :
    units.find? (fun other => other.key = unit.key) = some unit := by
  induction units with
  | nil => simp [distinct] at mem
  | cons first rest ih =>
      rw [distinct, List.mem_cons, List.mem_filter] at mem
      rcases mem with rfl | ⟨mem, ne⟩
      · simp
      · have other : unit.key ≠ first.key := by simpa using ne
        rw [List.find?_cons_of_neg (by simpa using other.symm)]
        exact ih mem

end Declaration

namespace Verified

variable {verified : Verified} {recorded : List (Declaration × Outcome)}

/-- The models of the result of a unit, if it has one. -/
def modelsOf (verified : Verified) (unit : Declaration) : List Model :=
  (verified.results[unit.key]?.map UnitResult.models).getD []

/-- Whether the views that a verified version gives of the outcomes of its units agree. -/
structure IsConsistent (verified : Verified) : Prop where
  /-- The results are counted. -/
  completed : verified.completed = verified.results.size
  /-- Each of them is the result of a unit, and has the name of the first one with its key. -/
  named : ∀ (key : UnitKey) (result : UnitResult), verified.results[key]? = some result →
    ∃ unit, verified.resolved.units.find? (fun unit => unit.key = key) = some unit ∧
      result.name = unit.name
  /-- Their models are listed in the order in which their keys first occur. -/
  counterexamples : verified.counterexamples =
    (distinct verified.resolved.units).flatMap verified.modelsOf
  /-- Each of them is shown in the tree of its document. -/
  shown : ∀ (key : UnitKey) (result : UnitResult), verified.results[key]? = some result →
    ∃ (tree : ProgressTree) (node : ProgressNode), verified.trees[key.uri]? = some tree ∧
      tree.find? key.range = some node ∧ node.name = result.name ∧ node.status = result.status
  /-- Any other node is as it was in the resolved version. -/
  kept : ∀ (uri : String) (tree : ProgressTree), verified.trees[uri]? = some tree →
    ∃ former, verified.resolved.trees[uri]? = some former ∧ ∀ node ∈ tree.nodes,
      ({ uri, range := node.range } : UnitKey) ∉ verified.results →
        former.find? node.range = some node

theorem show_record {first : ProgressTrees} (shows : first.Show verified.results verified.trees)
    (recorded : List (Declaration × Outcome)) :
    first.Show (verified.record recorded).results (verified.record recorded).trees := by
  induction recorded generalizing verified with
  | nil => exact shows
  | cons entry rest ih => exact ih (shows.recordStatus entry.1 entry.2)

theorem getElem?_results_record_of_ne {key : UnitKey}
    (others : ∀ entry ∈ recorded, entry.1.key ≠ key) :
    (verified.record recorded).results[key]? = verified.results[key]? := by
  induction recorded generalizing verified with
  | nil => rfl
  | cons entry rest ih =>
      rw [List.forall_mem_cons] at others
      change ((verified.withResult entry.1 entry.2).record rest).results[key]? = _
      rw [ih others.2, withResult, Std.ExtTreeMap.getElem?_insert, if_neg (by simpa using others.1)]

/-- What is recorded under a key of its own stays. -/
theorem getElem?_results_record
    (different : ((recorded.map Prod.fst).map Declaration.key).Nodup)
    {entry : Declaration × Outcome} (mem : entry ∈ recorded) :
    (verified.record recorded).results[entry.1.key]? = some (entry.2.result entry.1) := by
  rcases List.append_of_mem mem with ⟨former, latter, rfl⟩
  rw [List.map_append, List.map_append, List.map_cons, List.map_cons, List.nodup_append,
    List.nodup_cons] at different
  have others : ∀ other ∈ latter, other.1.key ≠ entry.1.key := fun other isOther same =>
    different.2.1.1 (same ▸ List.mem_map_of_mem (List.mem_map_of_mem isOther))
  rw [record_append]
  change (((verified.record former).withResult entry.1 entry.2).record latter).results[_]? = _
  rw [getElem?_results_record_of_ne others]
  simp [withResult, Outcome.result]

theorem counterexamples_record (verified : Verified) (recorded : List (Declaration × Outcome)) :
    (verified.record recorded).counterexamples =
      verified.counterexamples ++ recorded.flatMap fun entry => entry.2.models := by
  induction recorded generalizing verified with
  | nil => simp
  | cons entry rest ih =>
      change ((verified.withResult entry.1 entry.2).record rest).counterexamples = _
      rw [ih, withResult, List.flatMap_cons, List.append_assoc]

namespace IsInOrder

/-- The keys of units for which results were recorded in order are different. -/
theorem nodup_keys {units : List Declaration} (first : recorded.map Prod.fst <+: distinct units) :
    ((recorded.map Prod.fst).map Declaration.key).Nodup :=
  (Declaration.nodup_keys_distinct units).sublist (first.sublist.map Declaration.key)

/-- A result is that of the first unit with its key. -/
theorem named (inOrder : verified.IsInOrder) {key : UnitKey} {result : UnitResult}
    (found : verified.results[key]? = some result) :
    ∃ unit, verified.resolved.units.find? (fun unit => unit.key = key) = some unit ∧
      result.name = unit.name := by
  rcases inOrder with ⟨recorded, isRecorded, first⟩
  have known : key ∈ ((start verified.resolved).record recorded).results := by
    rw [← isRecorded, Std.ExtTreeMap.mem_iff_isSome_getElem?, found]
    rfl
  rw [mem_results_record, List.mem_map] at known
  rcases known with ⟨unit, isUnit, rfl⟩ | none_known
  · rcases List.mem_map.mp isUnit with ⟨entry, mem, rfl⟩
    refine ⟨entry.1, Declaration.find?_of_mem_distinct (first.subset isUnit), ?_⟩
    rw [isRecorded, getElem?_results_record (nodup_keys first) mem] at found
    exact congrArg UnitResult.name (Option.some.inj found).symm
  · simp [start] at none_known

/-- The models are listed in the order of the units. -/
theorem counterexamples_eq (inOrder : verified.IsInOrder) :
    verified.counterexamples = (distinct verified.resolved.units).flatMap verified.modelsOf := by
  rcases inOrder with ⟨recorded, isRecorded, first⟩
  have different := nodup_keys first
  have allDifferent := Declaration.nodup_keys_distinct verified.resolved.units
  rcases first with ⟨others, parts⟩
  have ofRecorded : ∀ entry ∈ recorded, verified.modelsOf entry.1 = entry.2.models := by
    intro entry mem
    rw [modelsOf, isRecorded, getElem?_results_record different mem]
    rfl
  have ofOthers : ∀ unit ∈ others, verified.modelsOf unit = [] := by
    intro unit mem
    rw [← parts, List.map_append, List.nodup_append] at allDifferent
    have new : ∀ entry ∈ recorded, entry.1.key ≠ unit.key := fun entry isRecorded =>
      allDifferent.2.2 _ (List.mem_map_of_mem (List.mem_map_of_mem isRecorded)) _
        (List.mem_map_of_mem mem)
    rw [modelsOf, isRecorded, getElem?_results_record_of_ne new]
    simp [start]
  calc verified.counterexamples
      = recorded.flatMap fun entry => entry.2.models := by
        rw [isRecorded, counterexamples_record]
        rfl
    _ = (recorded.map Prod.fst).flatMap verified.modelsOf := by
        rw [List.flatMap_map]
        exact List.flatMap_congr fun entry mem => (ofRecorded entry mem).symm
    _ = (recorded.map Prod.fst ++ others).flatMap verified.modelsOf := by
        rw [List.flatMap_append, List.flatMap_eq_nil_iff.mpr ofOthers, List.append_nil]
    _ = (distinct verified.resolved.units).flatMap verified.modelsOf := by rw [parts]

/-- The trees are those of the resolved version with the results shown in them. -/
theorem shows (inOrder : verified.IsInOrder) :
    verified.resolved.trees.Show verified.results verified.trees := by
  rcases inOrder with ⟨recorded, isRecorded, _⟩
  have shows : verified.resolved.trees.Show ((start verified.resolved).record recorded).results _ :=
    show_record (.refl verified.resolved.trees) recorded
  rwa [← isRecorded] at shows

/-- A version for which results were recorded in order, and only for documents with a tree,
does not contradict itself. -/
theorem isConsistent (inOrder : verified.IsInOrder) (counted : verified.IsCounted)
    (haveTrees : ∀ unit ∈ verified.resolved.units, unit.uri ∈ verified.resolved.trees)
    (ordered : verified.trees.AreOrdered) : verified.IsConsistent where
  completed := counted.completed
  named key result found := inOrder.named found
  counterexamples := inOrder.counterexamples_eq
  shown key result found := by
    rcases inOrder.named found with ⟨unit, isUnit, _⟩
    obtain rfl : unit.key = key := by simpa using List.find?_some isUnit
    have hasTree := haveTrees unit (List.mem_of_find?_eq_some isUnit)
    rcases inOrder.shows.exists_latter (Std.ExtTreeMap.getElem?_eq_some_getElem hasTree) with
      ⟨latter, isLatter, told⟩
    have isNode := told unit.range
    change _ = (verified.results[unit.key]?.map _).or _ at isNode
    rw [found] at isNode
    exact ⟨latter, _, isLatter, isNode, rfl, rfl⟩
  kept uri tree found := by
    rcases inOrder.shows.exists_former found with ⟨former, isFormer, told⟩
    refine ⟨former, isFormer, fun node mem unknown => ?_⟩
    have isNode := told node.range
    rw [Std.ExtTreeMap.getElem?_eq_none unknown] at isNode
    exact isNode.symm.trans ((ordered uri tree found).find?_eq_some mem)

end IsInOrder

end Verified

namespace Session

/-- In every session a resolved version has trees for the documents of all its units. -/
theorem Arises.haveTrees {session : Session} (arises : session.Arises) {number : Nat}
    {snapshot : Snapshot} (seen : HasSeen number snapshot session.chronicle) {resolved : Resolved}
    (isResolved : snapshot.resolved? = some resolved) :
    ∀ unit ∈ resolved.units, unit.uri ∈ resolved.trees := by
  have occurs := arises.occurs
  have nothing : session.chronicle = session.chronicle ++ [] := by simp
  rcases (occurs.hasLineage_of_seen nothing seen).resolved resolved isResolved with
    ⟨entry, mem, accepted⟩
  rcases List.append_of_mem mem with ⟨past, later, parts⟩
  have covers := (occurs.hasSoundTrees number).own past entry later parts _ accepted
    (by simp [Snapshot.stage])
  have warrant : resolved.HasWarrant number session.options past :=
    arises.hasWarrant_of_accepted parts accepted
  intro unit isUnit
  rcases (warrant.of_mem_units isUnit).2 with ⟨program, _, eligible⟩
  exact (covers.keys unit.uri).mpr eligible.inRoot

/-- In every run what was ever the latest snapshot of a manager does not contradict itself. -/
theorem isConsistent_run (options : Options) (n : Nat) (steps : List (Step n)) {number : Nat}
    {verified : Verified}
    (seen : HasSeen number (.verified verified) (run options n steps).2.chronicle) :
    verified.IsConsistent := by
  have arises := arises_run options n steps
  have nothing : (run options n steps).2.chronicle = (run options n steps).2.chronicle ++ [] := by
    simp
  exact (isInOrder_run options n steps nothing seen).isConsistent
    (arises.occurs.isCounted_and_hasAccepted nothing seen).1
    (arises.haveTrees seen rfl) (arises.occurs.areOrdered seen)

end Session

/-- The steps that open the sample project, load it with three methods, two of which share a
key, and verify it twice; the first verification is canceled at the last method. -/
def Step.sampleResumed : List (Step 0) :=
  let module : Declaration :=
    { Declaration.sampleModule 2 with
      members := [some .sampleMethod, some .sampleMethod, some .sampleNeighbour] }
  let interrupted : Plan Empty :=
    { Plan.succeeding none with
      verify := fun unit => { cancels := unit.name = "g", reply := {} } }
  [{ request := .openProject .sample, plan := .succeeding none },
    { request := .update 0 .sample, plan := .succeeding (some module) },
    { request := .verify 0, plan := interrupted },
    { request := .verify 0, plan := .succeeding none }]

/-- What these steps lead to has two results for three units, and does not contradict itself. -/
theorem Session.isConsistent_sample :
    ∃ verified : Verified,
      HasSeen 0 (.verified verified) (run {} 0 Step.sampleResumed).2.chronicle ∧
      verified.completed = 2 ∧ verified.resolved.units.length = 3 ∧ verified.IsConsistent := by
  have told : ((run {} 0 Step.sampleResumed).2.chronicle.getLast?.bind fun entry =>
        (entry.latest 0).verified?.map fun verified =>
          (verified.completed, verified.resolved.units.length)) =
      some (2, 3) := by
    decide +kernel
  have consistent (verified : Verified)
      (seen : HasSeen 0 (.verified verified) (run {} 0 Step.sampleResumed).2.chronicle) :
      verified.IsConsistent :=
    isConsistent_run {} 0 Step.sampleResumed seen
  generalize (run {} 0 Step.sampleResumed).2 = session at *
  rcases Option.bind_eq_some_iff.mp told with ⟨entry, isLast, told⟩
  rcases Option.map_eq_some_iff.mp told with ⟨verified, isVerified, told⟩
  rw [Prod.mk.injEq] at told
  have seen : HasSeen 0 (.verified verified) session.chronicle :=
    ⟨entry, List.mem_of_getLast? isLast, Snapshot.verified?_eq_some_iff.mp isVerified⟩
  exact ⟨verified, seen, told.1, told.2, consistent verified seen⟩

end Proofline
