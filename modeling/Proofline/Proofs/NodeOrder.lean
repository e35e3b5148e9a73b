import Proofline.Proofs.Survival

/-!
# The order of nodes

The nodes of a progress tree stand in the strict order of their ranges, so no two of them have
the same range and a node is found under its own. Nodes are only ever placed in order, and trees
are carried over as a whole from snapshots that were the latest ones before.
-/

namespace Proofline

namespace ProgressNode

theorem eq_or_mem_of_mem_place {node other : ProgressNode} {nodes : List ProgressNode}
    (mem : other ∈ node.place nodes) : other = node ∨ other ∈ nodes := by
  induction nodes with
  | nil => simpa [place] using mem
  | cons first rest ih =>
      unfold place at mem
      split at mem
      · rcases List.mem_cons.mp mem with rfl | mem
        · simp
        · exact (ih mem).imp id (List.mem_cons_of_mem first)
      · exact (List.mem_cons.mp mem).imp id (List.mem_cons_of_mem first)
      · exact List.mem_cons.mp mem

/-- Whether nodes stand in the strict order of their ranges. -/
def AreOrdered (nodes : List ProgressNode) : Prop :=
  nodes.Pairwise fun former latter => compare former.range latter.range = .lt

theorem AreOrdered.place {nodes : List ProgressNode} (ordered : AreOrdered nodes)
    (node : ProgressNode) : AreOrdered (node.place nodes) := by
  induction nodes with
  | nil => exact List.pairwise_singleton _ _
  | cons first rest ih =>
      rcases List.pairwise_cons.mp ordered with ⟨least, restOrdered⟩
      unfold ProgressNode.place
      split
      · rename_i before
        refine List.pairwise_cons.mpr ⟨fun other mem => ?_, ih restOrdered⟩
        rcases eq_or_mem_of_mem_place mem with rfl | mem
        · exact before
        · exact least other mem
      · rename_i same
        rw [Std.LawfulEqOrd.eq_of_compare same] at least
        exact List.pairwise_cons.mpr ⟨least, restOrdered⟩
      · rename_i after
        have before : compare node.range first.range = .lt := Std.OrientedCmp.lt_of_gt after
        refine List.pairwise_cons.mpr ⟨fun other mem => ?_, ordered⟩
        rcases List.mem_cons.mp mem with rfl | mem
        · exact before
        · exact Std.TransCmp.lt_trans before (least other mem)

end ProgressNode

namespace ProgressTree

/-- Whether the nodes of a tree stand in the strict order of their ranges. -/
def IsOrdered (tree : ProgressTree) : Prop :=
  ProgressNode.AreOrdered tree.nodes

theorem isOrdered_fresh (document : Document) : (fresh document).IsOrdered :=
  .nil

theorem IsOrdered.withNode {tree : ProgressTree} (ordered : tree.IsOrdered) (name : String)
    (range : Range) (status : ProgressStatus) : (tree.withNode name range status).IsOrdered :=
  ordered.place { name, range, status }

/-- In an ordered tree every node is the one found under its range. -/
theorem IsOrdered.find?_eq_some {tree : ProgressTree} (ordered : tree.IsOrdered)
    {node : ProgressNode} (mem : node ∈ tree.nodes) : tree.find? node.range = some node := by
  rcases List.append_of_mem mem with ⟨former, latter, parts⟩
  unfold IsOrdered ProgressNode.AreOrdered at ordered
  rw [parts, List.pairwise_append] at ordered
  have differ : ∀ other ∈ former, other.range ≠ node.range := by
    intro other isFormer same
    have before := ordered.2.2 other isFormer node (by simp)
    simp [same, Std.ReflCmp.compare_self] at before
  exact List.find?_eq_some_iff_append.mpr ⟨by simp, former, latter, parts,
    fun other isFormer => by simpa using differ other isFormer⟩

end ProgressTree

namespace ProgressTrees

/-- Whether each of some trees is ordered. -/
def AreOrdered (trees : ProgressTrees) : Prop :=
  ∀ (uri : String) (tree : ProgressTree), trees[uri]? = some tree → tree.IsOrdered

namespace AreOrdered

variable {trees : ProgressTrees}

theorem empty : (∅ : ProgressTrees).AreOrdered := by
  intro uri tree found
  simp at found

theorem insert (ordered : trees.AreOrdered) {uri : String} {tree : ProgressTree}
    (treeOrdered : tree.IsOrdered) : AreOrdered (trees.insert uri tree) := by
  intro other found isFound
  rw [Std.ExtTreeMap.getElem?_insert] at isFound
  split at isFound
  · exact Option.some.inj isFound ▸ treeOrdered
  · exact ordered other found isFound

theorem migrate (ordered : trees.AreOrdered) (compilation : Compilation) :
    (trees.migrate compilation).AreOrdered := by
  intro uri tree found
  rw [getElem?_migrate, Option.filter_eq_some_iff] at found
  exact ordered uri tree found.1

theorem initialTrees (ordered : trees.AreOrdered) (compilation : Compilation) :
    (Parsed.initialTrees compilation trees).AreOrdered := by
  intro uri tree found
  rw [Parsed.getElem?_initialTrees, Option.map_eq_some_iff] at found
  rcases found with ⟨document, _, rfl⟩
  cases carried : trees[uri]? with
  | none => exact ProgressTree.isOrdered_fresh document
  | some tree => exact ordered uri tree carried

theorem addPending (ordered : trees.AreOrdered) (parsed : Parsed) (migrated : ProgressTrees)
    (unit : Declaration) : (Resolved.addPending parsed migrated trees unit).AreOrdered := by
  unfold Resolved.addPending
  split
  · exact ordered
  · rename_i tree found
    split
    · exact ordered
    · exact ordered.insert ((ordered unit.uri tree found).withNode _ _ _)

theorem pendingTrees {parsed : Parsed} (ordered : parsed.trees.AreOrdered)
    (migrated : ProgressTrees) (units : List Declaration) :
    (Resolved.pendingTrees parsed migrated units).AreOrdered := by
  unfold Resolved.pendingTrees
  generalize parsed.trees = trees at ordered
  induction units generalizing trees with
  | nil => exact ordered
  | cons unit rest ih => exact ih _ (ordered.addPending parsed migrated unit)

theorem recordStatus (ordered : trees.AreOrdered) (unit : Declaration) (status : ProgressStatus) :
    (Verified.recordStatus trees unit status).AreOrdered := by
  unfold Verified.recordStatus
  split
  · exact ordered
  · rename_i tree found
    exact ordered.insert ((ordered unit.uri tree found).withNode _ _ _)

end AreOrdered

end ProgressTrees

/-- If the trees of all earlier snapshots are ordered, so are those of the next latest one. -/
theorem Descends.areOrdered {number : Nat} {past : List ChronicleEntry} {event : Event}
    {before after : Snapshot} (descends : Descends number past event before after)
    (beforeOrdered : before.trees.AreOrdered)
    (ordered : ∀ entry ∈ past, (entry.latest number).trees.AreOrdered) :
    after.trees.AreOrdered := by
  cases descends with
  | kept _ same => rwa [same]
  | opened _ _ unloaded =>
      rw [Snapshot.trees_of_unloaded unloaded]
      exact .empty
  | accepted _ _ grounds =>
      cases after with
      | unloaded => exact .empty
      | parsed parsed =>
          rcases grounds with ⟨_, ⟨former, begun, rest, rfl, _, rfl, _⟩, isInitial⟩
          rw [Snapshot.trees, isInitial]
          exact ((ordered begun (by simp)).migrate _).initialTrees _
      | resolved resolved =>
          rcases grounds with ⟨rfl, migrated, isPending⟩
          rw [Snapshot.trees, isPending]
          exact ProgressTrees.AreOrdered.pendingTrees beforeOrdered migrated resolved.units
      | verified verified =>
          cases grounds with
          | start base => exact beforeOrdered
          | withResult partly outcome mem pending => exact beforeOrdered.recordStatus _ _

/-- The trees of every snapshot that was ever the latest one of a manager are ordered. -/
theorem Session.Occurs.areOrdered {session : Session} (occurs : session.Occurs) {number : Nat}
    {snapshot : Snapshot} (seen : HasSeen number snapshot session.chronicle) :
    snapshot.trees.AreOrdered := by
  suffices ordered : ∀ past rest, session.chronicle = past ++ rest →
      (latestAfter number past).trees.AreOrdered ∧
        ∀ entry ∈ past, (entry.latest number).trees.AreOrdered by
    rcases seen with ⟨entry, mem, rfl⟩
    exact (ordered session.chronicle [] (by simp)).2 entry mem
  intro past
  -- Trees may be carried over from any snapshot before, so the induction is about all of them.
  induction past using List.reverseRecOn with
  | nil =>
      intro _ _
      rw [latestAfter_nil]
      exact ⟨.empty, by simp⟩
  | append_singleton past entry ih =>
      intro rest parts
      rw [List.append_assoc, List.singleton_append] at parts
      rcases ih _ parts with ⟨latestOrdered, ordered⟩
      have next := (occurs.descends parts number).areOrdered latestOrdered ordered
      rw [latestAfter_append_singleton]
      refine ⟨next, fun other mem => ?_⟩
      rcases List.mem_append.mp mem with mem | mem
      · exact ordered other mem
      · exact List.mem_singleton.mp mem ▸ next

end Proofline
