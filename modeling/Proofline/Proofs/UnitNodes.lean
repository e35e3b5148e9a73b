import Proofline.Proofs.Consistency

/-!
# How trees show the units

Resolution adds a node to a tree for each unit of its document, so that the unit can be seen to
be pending, but only to the trees that were begun anew: one that was carried over is left as it
is. A tree begun anew therefore tells of every unit, and is verified only when all of them are.
A tree that was carried over tells of the units that it told of before, and of those with a
result since; if its version was given up before it was resolved, there may be units missing
from it for as long as the text stays the same.
-/

namespace Proofline

namespace ProgressStatus

theorem worse_eq_verified_iff (first second : ProgressStatus) :
    first.worse second = .verified ↔ first = .verified ∧ second = .verified := by
  cases first <;> cases second <;> decide

end ProgressStatus

namespace ProgressTree

theorem foldl_worse_eq_verified_iff (nodes : List ProgressNode) (worst : ProgressStatus) :
    nodes.foldl (fun worst node => worst.worse node.status) worst = .verified ↔
      worst = .verified ∧ ∀ node ∈ nodes, node.status = .verified := by
  induction nodes generalizing worst with
  | nil => simp
  | cons node rest ih =>
      rw [List.foldl_cons, ih, ProgressStatus.worse_eq_verified_iff, List.forall_mem_cons,
        and_assoc]

/-- A tree is verified exactly when it has nodes and all of them are. -/
theorem status_eq_verified_iff (tree : ProgressTree) :
    tree.status = .verified ↔ tree.nodes ≠ [] ∧ ∀ node ∈ tree.nodes, node.status = .verified := by
  unfold status
  split
  · rename_i empty
    simp [List.isEmpty_iff.mp empty]
  · rename_i full
    rw [foldl_worse_eq_verified_iff]
    simp [List.isEmpty_iff.not.mp full]

end ProgressTree

namespace Resolved

variable {parsed : Parsed} {migrated trees : ProgressTrees} {uri : String} {unit : Declaration}

theorem isAdopted_of_not_mem (unknown : uri ∉ migrated) :
    isAdopted parsed migrated uri = false := by
  unfold isAdopted
  rw [Std.ExtTreeMap.getElem?_eq_none unknown]

/-- After parsing was given the migrated trees, those that count as carried over are the ones it
took from them, one for each root document that has one. -/
theorem isAdopted_iff {compilation : Compilation}
    (taken : parsed.trees = Parsed.initialTrees compilation migrated) :
    isAdopted parsed migrated uri = true ↔ uri ∈ migrated ∧ uri ∈ compilation.rootUris := by
  unfold isAdopted
  rw [taken, Parsed.getElem?_initialTrees, Std.ExtTreeMap.mem_iff_isSome_getElem?,
    ← compilation.isRoot_iff, Compilation.isRoot]
  cases migrated[uri]? with
  | none => simp
  | some tree => cases compilation.findRoot? uri <;> simp

/-- Nothing is added to a tree that was carried over. -/
theorem getElem?_addPending_of_isAdopted (adopted : isAdopted parsed migrated uri = true)
    (unit : Declaration) : (addPending parsed migrated trees unit)[uri]? = trees[uri]? := by
  unfold addPending
  split
  · rfl
  · split
    · rfl
    · rename_i added
      have ne : unit.uri ≠ uri := by
        rintro rfl
        simp [adopted] at added
      rw [Std.ExtTreeMap.getElem?_insert, if_neg (by simpa using ne)]

theorem getElem?_pendingTrees_of_isAdopted (adopted : isAdopted parsed migrated uri = true)
    (units : List Declaration) :
    (pendingTrees parsed migrated units)[uri]? = parsed.trees[uri]? := by
  unfold pendingTrees
  generalize parsed.trees = trees
  induction units generalizing trees with
  | nil => rfl
  | cons unit rest ih =>
      rw [List.foldl_cons, ih, getElem?_addPending_of_isAdopted adopted]

/-- A unit has a node in the tree of its document after a node was added for it if need be. -/
theorem exists_node_of_addPending (anew : unit.uri ∉ migrated) (hasTree : unit.uri ∈ trees) :
    ∃ tree node, (addPending parsed migrated trees unit)[unit.uri]? = some tree ∧
      tree.find? unit.range = some node := by
  have found := Std.ExtTreeMap.getElem?_eq_some_getElem hasTree
  generalize trees[unit.uri] = tree at found
  simp only [addPending, found, isAdopted_of_not_mem anew, Bool.false_or]
  split
  · rename_i known
    rcases Option.isSome_iff_exists.mp known with ⟨node, isNode⟩
    exact ⟨tree, node, found, isNode⟩
  · exact ⟨_, _, Std.ExtTreeMap.getElem?_insert_self, tree.find?_withNode_self ..⟩

/-- Every unit has a node in the tree of its document, unless that was carried over. -/
theorem exists_node_of_pendingTrees {units : List Declaration} (mem : unit ∈ units)
    (anew : unit.uri ∉ migrated) (hasTree : unit.uri ∈ parsed.trees) :
    ∃ tree node, (pendingTrees parsed migrated units)[unit.uri]? = some tree ∧
      tree.find? unit.range = some node := by
  rcases List.append_of_mem mem with ⟨former, latter, rfl⟩
  unfold pendingTrees
  rw [List.foldl_append, List.foldl_cons]
  have still := ((ProgressTrees.GrowTo.refl ∅ parsed.trees).foldl_addPending parsed migrated
    former).mem_iff unit.uri
  rcases exists_node_of_addPending anew (still.mpr hasTree) with ⟨tree, node, found, isNode⟩
  exact ((ProgressTrees.GrowTo.refl ∅ _).foldl_addPending parsed migrated latter).exists_node
    found isNode

namespace LoadedFrom

variable {origin : Snapshot} {resolved : Resolved} {tree : ProgressTree}

theorem growTo (loaded : resolved.LoadedFrom origin) :
    resolved.parsed.trees.GrowTo ∅ resolved.trees :=
  loaded.trees ▸ (ProgressTrees.GrowTo.refl ∅ _).pendingTrees _ _ _

/-- A tree that is carried over is left as it is. -/
theorem getElem?_trees_of_carried (loaded : resolved.LoadedFrom origin)
    (carried : (origin.trees.migrate resolved.compilation)[uri]? = some tree) :
    resolved.trees[uri]? = some tree := by
  rcases ProgressTrees.describes_of_migrate carried with ⟨document, isRoot, rfl, describes⟩
  have previous := carried
  rw [ProgressTrees.getElem?_migrate, Option.filter_eq_some_iff] at previous
  have initial : resolved.parsed.trees[document.uri]? = some tree := by
    rw [loaded.parsedTrees]
    exact Parsed.getElem?_initialTrees_of_describes isRoot previous.1 describes
  have isMigrated : document.uri ∈ origin.trees.migrate resolved.compilation :=
    Std.ExtTreeMap.mem_iff_isSome_getElem?.mpr (Option.isSome_of_eq_some carried)
  have adopted := (isAdopted_iff loaded.parsedTrees).mpr ⟨isMigrated, List.mem_map_of_mem isRoot⟩
  rw [loaded.trees, getElem?_pendingTrees_of_isAdopted adopted, initial]

/-- A tree that is begun anew has pending nodes only. -/
theorem isPending (loaded : resolved.LoadedFrom origin)
    (anew : uri ∉ origin.trees.migrate resolved.compilation)
    (found : resolved.trees[uri]? = some tree) {range : Range} {node : ProgressNode}
    (isNode : tree.find? range = some node) : node.status = .pending := by
  have related := loaded.growTo uri
  rw [found, loaded.parsedTrees, Parsed.getElem?_initialTrees,
    Std.ExtTreeMap.getElem?_eq_none anew] at related
  generalize resolved.compilation.findRoot? uri = root at related
  cases root with
  | none => cases related
  | some document =>
      cases related with
      | some grows =>
          rcases grows.nodes range with same | ⟨_, name, isPending⟩ | ⟨_, told, _⟩
          · rw [isNode] at same
            cases same
          · rw [isNode] at isPending
            rw [Option.some.inj isPending]
          · simp at told

/-- Every unit has a pending node in a tree that is begun anew. -/
theorem exists_pending (loaded : resolved.LoadedFrom origin) (mem : unit ∈ resolved.units)
    (anew : unit.uri ∉ origin.trees.migrate resolved.compilation)
    (hasTree : unit.uri ∈ resolved.trees) :
    ∃ tree node, resolved.trees[unit.uri]? = some tree ∧ tree.find? unit.range = some node ∧
      node.status = .pending := by
  rw [loaded.growTo.mem_iff] at hasTree
  rcases exists_node_of_pendingTrees mem anew hasTree with ⟨tree, node, found, isNode⟩
  rw [← loaded.trees] at found
  exact ⟨tree, node, found, isNode, loaded.isPending anew found isNode⟩

end LoadedFrom

end Resolved

/-- How a snapshot of a resolved version, to which some trees were carried over, shows the units
of the version. -/
structure Snapshot.ShowsUnits (carried : ProgressTrees) (resolved : Resolved)
    (snapshot : Snapshot) : Prop where
  /-- A tree that was begun anew has a node for every unit of its document. -/
  anew : ∀ unit ∈ resolved.units, unit.uri ∉ carried →
    ∃ (tree : ProgressTree) (node : ProgressNode),
      snapshot.trees[unit.uri]? = some tree ∧ tree.find? unit.range = some node
  /-- Such a tree is verified only if every unit of its document is. -/
  verified : ∀ (uri : String) (tree : ProgressTree), uri ∉ carried →
    snapshot.trees[uri]? = some tree → tree.status = .verified →
      ∀ unit ∈ resolved.units, unit.uri = uri → ∃ result,
        snapshot.results[unit.key]? = some result ∧ result.status = .verified
  /-- Resolution leaves a tree that was carried over as it was. -/
  untouched : ∀ (uri : String) (tree : ProgressTree), carried[uri]? = some tree →
    resolved.trees[uri]? = some tree
  /-- Such a tree has a node for a unit if it had one before or the unit has a result. -/
  carriedOver : ∀ unit ∈ resolved.units, ∀ tree : ProgressTree,
    carried[unit.uri]? = some tree → ∃ grown : ProgressTree,
      snapshot.trees[unit.uri]? = some grown ∧ ((grown.find? unit.range).isSome = true ↔
        (tree.find? unit.range).isSome = true ∨ unit.key ∈ snapshot.results)

/-- A version that was resolved from the trees that its update found shows its units, as long as
nothing but results is added. -/
theorem Resolved.LoadedFrom.showsUnits {origin : Snapshot} {resolved : Resolved}
    (loaded : resolved.LoadedFrom origin)
    (haveTrees : ∀ unit ∈ resolved.units, unit.uri ∈ resolved.trees) {snapshot : Snapshot}
    (shows : resolved.trees.Show snapshot.results snapshot.trees) :
    snapshot.ShowsUnits (origin.trees.migrate resolved.compilation) resolved where
  anew unit mem isAnew := by
    rcases loaded.exists_pending mem isAnew (haveTrees unit mem) with
      ⟨former, node, found, isNode, _⟩
    rcases shows.exists_latter found with ⟨tree, isTree, told⟩
    have shown := told unit.range
    rw [isNode] at shown
    cases known : snapshot.results[({ uri := unit.uri, range := unit.range } : UnitKey)]? with
    | none => exact ⟨tree, node, isTree, by simpa [known] using shown⟩
    | some result => exact ⟨tree, _, isTree, by simpa [known] using shown⟩
  verified uri tree isAnew isTree isVerified unit mem same := by
    subst same
    rcases loaded.exists_pending mem isAnew (haveTrees unit mem) with
      ⟨former, node, found, isNode, pending⟩
    rcases shows.exists_former isTree with ⟨_, isFormer, told⟩
    obtain rfl := Option.some.inj (found.symm.trans isFormer)
    have shown := told unit.range
    have all := (ProgressTree.status_eq_verified_iff tree).mp isVerified
    change _ = (snapshot.results[unit.key]?.map _).or _ at shown
    cases known : snapshot.results[unit.key]? with
    | none =>
        rw [known, isNode] at shown
        have isVerified := all.2 node (List.mem_of_find?_eq_some shown)
        rw [pending] at isVerified
        cases isVerified
    | some result =>
        rw [known] at shown
        exact ⟨result, rfl, all.2 _ (List.mem_of_find?_eq_some shown)⟩
  untouched uri tree carried := loaded.getElem?_trees_of_carried carried
  carriedOver unit mem tree carried := by
    rcases shows.exists_latter (loaded.getElem?_trees_of_carried carried) with
      ⟨grown, isGrown, told⟩
    refine ⟨grown, isGrown, ?_⟩
    rw [told, Option.isSome_or, Option.isSome_map, Bool.or_eq_true, or_comm,
      ← Std.ExtTreeMap.mem_iff_isSome_getElem?]
    rfl

namespace Session

/-- In every run the resolved versions that managers come to, verified or not, show their units
as the trees allow that their updates found. -/
theorem showsUnits_run (options : Options) (n : Nat) (steps : List (Step n)) {number : Nat}
    {past later : List ChronicleEntry}
    (parts : (run options n steps).2.chronicle = past ++ later) {snapshot : Snapshot}
    (seen : HasSeen number snapshot past) {resolved : Resolved}
    (isResolved : snapshot.resolved? = some resolved) :
    ∃ origin former, former <+: past ∧
      UpdateBegan number resolved.compilation.version origin former ∧
      snapshot.ShowsUnits (origin.trees.migrate resolved.compilation) resolved := by
  rcases loadedFrom_run options n steps parts seen isResolved with
    ⟨origin, former, before, began, loaded⟩
  have haveTrees := (arises_run options n steps).haveTrees (parts ▸ seen.append later) isResolved
  refine ⟨origin, former, before, began, loaded.showsUnits haveTrees ?_⟩
  cases snapshot with
  | unloaded | parsed => cases isResolved
  | resolved resolved =>
      cases isResolved
      exact .refl _
  | verified verified =>
      cases isResolved
      exact (isInOrder_run options n steps parts seen).shows

/-- A version with three units is verified whose update found no trees, and shows its units. -/
theorem showsUnits_sample : ∃ (snapshot : Snapshot) (resolved : Resolved) (origin : Snapshot),
    HasSeen 0 snapshot (run {} 0 Step.sampleResumed).2.chronicle ∧
    snapshot.resolved? = some resolved ∧ resolved.units.length = 3 ∧
    snapshot.ShowsUnits (origin.trees.migrate resolved.compilation) resolved := by
  have told : ((run {} 0 Step.sampleResumed).2.chronicle.getLast?.bind fun entry =>
        (entry.latest 0).resolved?.map fun resolved => resolved.units.length) = some 3 := by
    decide +kernel
  have shows (past later : List ChronicleEntry)
      (parts : (run {} 0 Step.sampleResumed).2.chronicle = past ++ later) (snapshot : Snapshot)
      (seen : HasSeen 0 snapshot past) (resolved : Resolved)
      (isResolved : snapshot.resolved? = some resolved) :=
    showsUnits_run {} 0 Step.sampleResumed parts seen isResolved
  generalize (run {} 0 Step.sampleResumed).2 = session at *
  rcases Option.bind_eq_some_iff.mp told with ⟨entry, isLast, told⟩
  rcases Option.map_eq_some_iff.mp told with ⟨resolved, isResolved, told⟩
  have seen : HasSeen 0 (entry.latest 0) session.chronicle :=
    ⟨entry, List.mem_of_getLast? isLast, rfl⟩
  rcases shows session.chronicle [] (by simp) _ seen resolved isResolved with
    ⟨origin, _, _, _, shows⟩
  exact ⟨entry.latest 0, resolved, origin, seen, isResolved, told, shows⟩

end Session

/-- The steps that open the sample project, update it to a version whose resolution is canceled
and to another one with the same text and two methods, and verify the first method. -/
def Step.sampleUnresolved : List (Step 0) :=
  let canceled : Plan Empty :=
    { Plan.succeeding (some .samplePair) with resolve := { cancels := true, reply := [] } }
  let interrupted : Plan Empty :=
    { Plan.succeeding none with
      verify := fun unit => { cancels := unit.name = "g", reply := {} } }
  [{ request := .openProject .sample, plan := .succeeding none },
    { request := .update 0 .sample, plan := canceled },
    { request := .update 0 { Compilation.sample with version := 2 },
      plan := .succeeding (some .samplePair) },
    { request := .verify 0, plan := interrupted }]

namespace Session

/-- After these steps the tree is verified, but the second method is not, and has no node. -/
theorem unshown_sample : ∃ snapshot resolved unit,
    HasSeen 0 snapshot (run {} 0 Step.sampleUnresolved).2.chronicle ∧
    snapshot.resolved? = some resolved ∧ unit ∈ resolved.units ∧ unit.key ∉ snapshot.results ∧
    ∃ tree : ProgressTree, snapshot.trees[unit.uri]? = some tree ∧
      tree.find? unit.range = none ∧ tree.status = .verified := by
  have told : ((run {} 0 Step.sampleUnresolved).2.chronicle.getLast?.bind fun entry =>
        (entry.latest 0).resolved?.bind fun resolved => resolved.units[1]?.bind fun unit =>
          (entry.latest 0).trees[unit.uri]?.map fun tree =>
            (decide (unit.key ∈ (entry.latest 0).results), tree.find? unit.range, tree.status)) =
      some (false, none, .verified) := by
    decide +kernel
  generalize (run {} 0 Step.sampleUnresolved).2 = session at *
  rcases Option.bind_eq_some_iff.mp told with ⟨entry, isLast, told⟩
  rcases Option.bind_eq_some_iff.mp told with ⟨resolved, isResolved, told⟩
  rcases Option.bind_eq_some_iff.mp told with ⟨unit, isUnit, told⟩
  rcases Option.map_eq_some_iff.mp told with ⟨tree, isTree, told⟩
  simp only [Prod.mk.injEq, decide_eq_false_iff_not] at told
  exact ⟨entry.latest 0, resolved, unit, ⟨entry, List.mem_of_getLast? isLast, rfl⟩, isResolved,
    List.mem_of_getElem? isUnit, told.1, tree, isTree, told.2⟩

end Session

end Proofline
