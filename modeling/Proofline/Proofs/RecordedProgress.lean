import Mathlib.Data.List.Sort
import Proofline.Proofs.NodeOrder

/-!
# Recorded progress

A progress tree is a map from ranges to what was recorded for them last. Its nodes stand in the
strict order of their ranges, so the place of a range can be found by halving, and two trees of a
document that tell the same of every range are the same, whatever the order in which it was
recorded.
-/

namespace Proofline

namespace Range

instance : IsStrictTotalOrder Range (· < ·) where
  irrefl range before := by
    change compare range range = .lt at before
    simp [Std.ReflCmp.compare_self] at before
  trans _ _ _ first second := Std.TransCmp.lt_trans first second
  trichotomous first second notBefore notAfter := by
    cases compared : compare first second with
    | lt => exact absurd compared notBefore
    | eq => exact Std.LawfulEqOrd.eq_of_compare compared
    | gt => exact absurd (Std.OrientedCmp.lt_of_gt compared) notAfter

end Range

namespace ProgressStatus

theorem verified_worse (status : ProgressStatus) : verified.worse status = status := by
  cases status <;> rfl

/-- The statuses from the best to the worst. -/
theorem pairwise_badness :
    [verified, pending, inconclusive, failed, internalError].Pairwise
      fun better worse => better.badness < worse.badness := by
  decide

/-- Whether a status is the worst of some statuses. -/
def IsWorst (statuses : List ProgressStatus) (status : ProgressStatus) : Prop :=
  status ∈ statuses ∧ ∀ other ∈ statuses, other.badness ≤ status.badness

theorem IsWorst.append_singleton {statuses : List ProgressStatus} {worst : ProgressStatus}
    (isWorst : IsWorst statuses worst) (status : ProgressStatus) :
    IsWorst (statuses ++ [status]) (worst.worse status) := by
  rcases isWorst with ⟨mem, least⟩
  unfold worse
  split
  · rename_i less
    refine ⟨by simp, fun other isOther => ?_⟩
    rcases List.mem_append.mp isOther with former | latter
    · exact (least other former).trans less.le
    · rw [List.mem_singleton.mp latter]
  · rename_i notLess
    refine ⟨List.mem_append_left _ mem, fun other isOther => ?_⟩
    rcases List.mem_append.mp isOther with former | latter
    · exact least other former
    · rw [List.mem_singleton.mp latter]
      exact Nat.le_of_not_lt notLess

end ProgressStatus

namespace ProgressNode

variable {node first : ProgressNode} {nodes former latter rest : List ProgressNode} {range : Range}

section Halving

/-- The number of nodes of an ordered list before a range, by halving: the middle node tells in
which half of the nodes the search goes on. -/
def lowerBound (range : Range) (nodes : List ProgressNode) : Nat :=
  if nonempty : 0 < nodes.length then
    have inside : nodes.length / 2 < nodes.length := Nat.div_lt_self nonempty Nat.one_lt_two
    if compare nodes[nodes.length / 2].range range = .lt then
      nodes.length / 2 + 1 + lowerBound range (nodes.drop (nodes.length / 2 + 1))
    else
      lowerBound range (nodes.take (nodes.length / 2))
  else
    0
termination_by nodes.length
decreasing_by
  · rw [List.length_drop]
    omega
  · rw [List.length_take]
    omega

/-- Put `node` where halving finds its place, or in place of the node that is there when that has
the same range. -/
def put (node : ProgressNode) (nodes : List ProgressNode) : List ProgressNode :=
  let place := lowerBound node.range nodes
  let isThere := nodes[place]?.any fun found => found.range = node.range
  nodes.take place ++ node :: nodes.drop (if isThere then place + 1 else place)

theorem take_append_middle {place : Nat} (inside : place < nodes.length) :
    nodes.take place ++ nodes[place] :: nodes.drop (place + 1) = nodes := by
  rw [List.getElem_cons_drop, List.take_append_drop]

/-- The middle node of an ordered list stands between two ordered lists. -/
theorem AreOrdered.middle (ordered : AreOrdered nodes) {place : Nat}
    (inside : place < nodes.length) :
    (AreOrdered (nodes.take place) ∧
        ∀ other ∈ nodes.take place, compare other.range nodes[place].range = .lt) ∧
      AreOrdered (nodes.drop (place + 1)) ∧
        ∀ other ∈ nodes.drop (place + 1), compare nodes[place].range other.range = .lt := by
  have parted := ordered
  rw [← take_append_middle inside] at parted
  rcases List.pairwise_append.mp parted with ⟨formerOrdered, latterOrdered, across⟩
  rcases List.pairwise_cons.mp latterOrdered with ⟨least, latterOrdered⟩
  exact ⟨⟨formerOrdered, fun other mem => across other mem _ List.mem_cons_self⟩,
    latterOrdered, least⟩

/-- In an ordered list, halving finds where the nodes before a range end. -/
theorem AreOrdered.exists_append (ordered : AreOrdered nodes) (range : Range) :
    ∃ former latter, nodes = former ++ latter ∧ former.length = lowerBound range nodes ∧
      (∀ other ∈ former, compare other.range range = .lt) ∧
      ∀ other ∈ latter, compare other.range range ≠ .lt := by
  fun_induction lowerBound range nodes with
  | case1 nodes nonempty inside before ih =>
      rcases ordered.middle inside with ⟨⟨_, less⟩, secondOrdered, _⟩
      rcases ih secondOrdered with ⟨former, latter, isSecondHalf, length, isBefore, notBefore⟩
      refine ⟨nodes.take (nodes.length / 2) ++ nodes[nodes.length / 2] :: former, latter, ?_, ?_,
        ?_, notBefore⟩
      · rw [List.append_assoc, List.cons_append, ← isSecondHalf, take_append_middle inside]
      · rw [List.length_append, List.length_cons, length, List.length_take_of_le inside.le]
        omega
      · intro other mem
        rw [List.mem_append, List.mem_cons] at mem
        rcases mem with isFirstHalf | rfl | isSecondHalf
        · exact Std.TransCmp.lt_trans (less other isFirstHalf) before
        · exact before
        · exact isBefore other isSecondHalf
  | case2 nodes nonempty inside notBefore ih =>
      rcases ordered.middle inside with ⟨⟨firstOrdered, _⟩, _, more⟩
      rcases ih firstOrdered with ⟨former, latter, isFirstHalf, length, isBefore, noneBefore⟩
      refine ⟨former, latter ++ nodes[nodes.length / 2] :: nodes.drop (nodes.length / 2 + 1), ?_,
        length, isBefore, ?_⟩
      · rw [← List.append_assoc, ← isFirstHalf, take_append_middle inside]
      · intro other mem
        rw [List.mem_append, List.mem_cons] at mem
        rcases mem with isFirstHalf | rfl | isSecondHalf
        · exact noneBefore other isFirstHalf
        · exact notBefore
        · intro before
          exact notBefore (Std.TransCmp.lt_trans (more other isSecondHalf) before)
  | case3 nodes empty =>
      have isEmpty : nodes = [] := List.eq_nil_of_length_eq_zero (Nat.eq_zero_of_not_pos empty)
      exact ⟨[], [], isEmpty, rfl, by simp, by simp⟩

end Halving

theorem place_append (before : ∀ other ∈ former, compare other.range node.range = .lt)
    (latter : List ProgressNode) :
    node.place (former ++ latter) = former ++ node.place latter := by
  induction former with
  | nil => rfl
  | cons first rest ih =>
      rw [List.forall_mem_cons] at before
      rw [List.cons_append, place, before.1, ih before.2, List.cons_append]

theorem place_cons_of_eq (same : first.range = node.range) :
    node.place (first :: rest) = node :: rest := by
  simp only [place, same, Std.ReflCmp.compare_self]

/-- Where no node is before a range, a node of that range comes first, in place of one that has
the same range. -/
theorem place_of_not_before (notBefore : ∀ other ∈ latter, compare other.range node.range ≠ .lt) :
    node.place latter =
      node :: latter.drop
        (if latter.head?.any (fun first => first.range = node.range) then 1 else 0) := by
  cases latter with
  | nil => rfl
  | cons first rest =>
      rw [List.forall_mem_cons] at notBefore
      cases compared : compare first.range node.range with
      | lt => exact absurd compared notBefore.1
      | eq =>
          have same := Std.LawfulEqOrd.eq_of_compare compared
          simp [place, same]
      | gt =>
          have ne : first.range ≠ node.range := by
            intro same
            simp [same, Std.ReflCmp.compare_self] at compared
          simp [place, compared, ne]

/-- In an ordered list a node is put where halving finds its place. -/
theorem AreOrdered.place_eq_put (ordered : AreOrdered nodes) (node : ProgressNode) :
    node.place nodes = node.put nodes := by
  rcases ordered.exists_append node.range with ⟨former, latter, parts, length, before, notBefore⟩
  have taken : nodes.take (lowerBound node.range nodes) = former := by
    rw [← length, parts, List.take_left]
  have dropped (further : Nat) :
      nodes.drop (lowerBound node.range nodes + further) = latter.drop further := by
    rw [← length, parts, List.drop_length_add_append]
  have there : nodes[lowerBound node.range nodes]? = latter.head? := by
    rw [← length, parts, List.getElem?_append_right (Nat.le_refl _), Nat.sub_self,
      List.head?_eq_getElem?]
  have placed : node.place nodes = former ++ node.place latter := by
    rw [parts, place_append before]
  rw [placed, place_of_not_before notBefore, put, taken, there]
  split
  · rw [dropped]
  · rw [← dropped 0, Nat.add_zero]

/-- In an ordered list a node takes the place of the one with the same range. -/
theorem AreOrdered.place_of_range_eq {node earlier : ProgressNode}
    (ordered : AreOrdered (former ++ earlier :: latter)) (same : earlier.range = node.range) :
    node.place (former ++ earlier :: latter) = former ++ node :: latter := by
  rcases List.pairwise_append.mp ordered with ⟨_, _, across⟩
  have before : ∀ other ∈ former, compare other.range node.range = .lt := by
    intro other mem
    exact same ▸ across other mem earlier List.mem_cons_self
  rw [place_append before, place_cons_of_eq same]

/-- Ordered lists with the same nodes are equal. -/
theorem AreOrdered.eq_of_mem_iff {first second : List ProgressNode} (ordered : AreOrdered first)
    (ordered' : AreOrdered second) (same : ∀ node, node ∈ first ↔ node ∈ second) :
    first = second := by
  have isIrrefl : Std.Irrefl fun former latter : ProgressNode =>
      compare former.range latter.range = .lt := ⟨fun node => by simp⟩
  have isAntisymm : Std.Antisymm fun former latter : ProgressNode =>
      compare former.range latter.range = .lt := ⟨fun former latter before after => by
    rw [Std.OrientedCmp.gt_of_lt before] at after
    cases after⟩
  exact List.Pairwise.eq_of_mem_iff ordered ordered' same

section Calls

/-- Whether a node is what was recorded last for its range. -/
def IsLast (calls : List ProgressNode) (call : ProgressNode) : Prop :=
  ∃ before after, calls = before ++ call :: after ∧ ∀ later ∈ after, later.range ≠ call.range

theorem isLast_iff {calls : List ProgressNode} {call : ProgressNode} :
    IsLast calls call ↔
      (calls.reverse.find? fun other => other.range = call.range) = some call := by
  simp only [IsLast, Table.find?_reverse_eq_some_iff, decide_eq_true_eq, true_and,
    Bool.not_eq_true', decide_eq_false_iff_not]

end Calls

end ProgressNode

namespace ProgressTree

open ProgressNode (IsLast)

/-- The tree with the progress of some nodes recorded, one after the other. -/
def withNodes (tree : ProgressTree) (calls : List ProgressNode) : ProgressTree :=
  calls.foldl (fun tree call => tree.withNode call.name call.range call.status) tree

theorem withNodes_append (tree : ProgressTree) (former latter : List ProgressNode) :
    tree.withNodes (former ++ latter) = (tree.withNodes former).withNodes latter :=
  List.foldl_append

theorem withNodes_singleton (tree : ProgressTree) (call : ProgressNode) :
    tree.withNodes [call] = tree.withNode call.name call.range call.status := rfl

/-- Recording progress changes nothing but the nodes. -/
theorem withNodes_eq (tree : ProgressTree) (calls : List ProgressNode) :
    tree.withNodes calls = { tree with nodes := (tree.withNodes calls).nodes } := by
  induction calls using List.reverseRecOn with
  | nil => rfl
  | append_singleton calls call ih =>
      rw [withNodes_append, withNodes_singleton, withNode, ih]

theorem IsOrdered.withNodes {tree : ProgressTree} (ordered : tree.IsOrdered)
    (calls : List ProgressNode) : (tree.withNodes calls).IsOrdered := by
  induction calls using List.reverseRecOn with
  | nil => exact ordered
  | append_singleton calls call ih =>
      rw [withNodes_append, withNodes_singleton]
      exact ih.withNode _ _ _

/-- A range has the node that was recorded last for it. -/
theorem find?_withNodes_fresh (document : Document) (calls : List ProgressNode) (range : Range) :
    ((fresh document).withNodes calls).find? range =
      calls.reverse.find? fun call => call.range = range := by
  induction calls using List.reverseRecOn with
  | nil => rfl
  | append_singleton calls call ih =>
      rw [withNodes_append, withNodes_singleton, List.reverse_append, List.reverse_singleton,
        List.singleton_append, List.find?_cons]
      by_cases same : call.range = range
      · subst same
        simp
      · simp [find?_withNode_of_ne _ _ same, ih, same]

/-- The nodes of an ordered tree are those that are found. -/
theorem IsOrdered.mem_nodes_iff {tree : ProgressTree} (ordered : tree.IsOrdered)
    (node : ProgressNode) : node ∈ tree.nodes ↔ tree.find? node.range = some node := by
  constructor
  · exact ordered.find?_eq_some
  · exact List.mem_of_find?_eq_some

/-- The nodes of a tree are the last ones recorded for their ranges. -/
theorem mem_nodes_withNodes_fresh (document : Document) (calls : List ProgressNode)
    (node : ProgressNode) :
    node ∈ ((fresh document).withNodes calls).nodes ↔ IsLast calls node := by
  rw [((isOrdered_fresh document).withNodes calls).mem_nodes_iff, find?_withNodes_fresh,
    ProgressNode.isLast_iff]

/-- Recordings in an ordered tree that come to the same nodes come to the same tree. -/
theorem IsOrdered.withNodes_eq_of_mem_iff {tree : ProgressTree} (ordered : tree.IsOrdered)
    {calls others : List ProgressNode}
    (same : ∀ node, node ∈ (tree.withNodes calls).nodes ↔ node ∈ (tree.withNodes others).nodes) :
    tree.withNodes calls = tree.withNodes others := by
  have sameNodes := (ordered.withNodes calls).eq_of_mem_iff (ordered.withNodes others) same
  rw [withNodes_eq tree calls, withNodes_eq tree others, sameNodes]

/-- Recordings for different ranges can change places. -/
theorem IsOrdered.withNodes_comm {tree : ProgressTree} (ordered : tree.IsOrdered)
    {first second : ProgressNode} (ne : first.range ≠ second.range) :
    tree.withNodes [first, second] = tree.withNodes [second, first] := by
  have same (range : Range) :
      (tree.withNodes [first, second]).find? range =
        (tree.withNodes [second, first]).find? range := by
    change ((tree.withNode _ _ _).withNode _ _ _).find? range =
      ((tree.withNode _ _ _).withNode _ _ _).find? range
    by_cases isFirst : first.range = range
    · subst isFirst
      rw [find?_withNode_of_ne _ _ ne.symm, find?_withNode_self, find?_withNode_self]
    · rw [find?_withNode_of_ne _ _ isFirst]
      by_cases isSecond : second.range = range
      · subst isSecond
        rw [find?_withNode_self, find?_withNode_self]
      · rw [find?_withNode_of_ne _ _ isSecond, find?_withNode_of_ne _ _ isSecond,
          find?_withNode_of_ne _ _ isFirst]
  refine ordered.withNodes_eq_of_mem_iff fun node => ?_
  rw [(ordered.withNodes _).mem_nodes_iff, same, ← (ordered.withNodes _).mem_nodes_iff]

/-- The status of a tree with nodes is the worst of theirs. -/
theorem isWorst_status {tree : ProgressTree} (nonempty : tree.nodes ≠ []) :
    ProgressStatus.IsWorst (tree.nodes.map ProgressNode.status) tree.status := by
  rw [status, if_neg (by simpa using nonempty)]
  generalize tree.nodes = nodes at nonempty
  induction nodes using List.reverseRecOn with
  | nil => exact absurd rfl nonempty
  | append_singleton nodes node ih =>
      rw [List.foldl_append, List.foldl_cons, List.foldl_nil, List.map_append, List.map_singleton]
      by_cases isFirst : nodes = []
      · rw [isFirst, List.foldl_nil, ProgressStatus.verified_worse]
        simp [ProgressStatus.IsWorst]
      · exact (ih isFirst).append_singleton node.status

/-- If anything was recorded, the status of a tree is the worst that was recorded last for some
range. -/
theorem status_withNodes_fresh (document : Document) {calls : List ProgressNode}
    (nonempty : calls ≠ []) :
    (∃ call, IsLast calls call ∧ call.status = ((fresh document).withNodes calls).status) ∧
      ∀ call, IsLast calls call →
        call.status.badness ≤ ((fresh document).withNodes calls).status.badness := by
  have hasNodes : ((fresh document).withNodes calls).nodes ≠ [] := by
    rcases calls.eq_nil_or_concat' with isEmpty | ⟨former, last, rfl⟩
    · exact absurd isEmpty nonempty
    · have isNode := (mem_nodes_withNodes_fresh document _ last).mpr ⟨former, [], rfl, by simp⟩
      exact List.ne_nil_of_mem isNode
  rcases isWorst_status hasNodes with ⟨mem, least⟩
  rcases List.mem_map.mp mem with ⟨node, isNode, isStatus⟩
  constructor
  · exact ⟨node, (mem_nodes_withNodes_fresh document calls node).mp isNode, isStatus⟩
  · intro call isLast
    exact least _ (List.mem_map_of_mem ((mem_nodes_withNodes_fresh document calls call).mpr isLast))

/-- A progress tree is an ordered map from ranges to what was recorded for them last. Ranges are
ordered strictly and totally, by start and then by end; the nodes stand in this order, and each is
put where halving finds its place. A range has the node that was recorded last for it, if any was.
Recordings for different ranges can change places, and a later one for the same range takes the
place of the earlier one. The status is the worst of the last recordings, and pending when there is
none. So a tree depends on nothing but the last recordings. -/
theorem keepsLastRecords (document : Document) (calls : List ProgressNode) :
    let tree := (fresh document).withNodes calls
    (IsStrictTotalOrder Range (· < ·) ∧
      ∀ a b : Range, a < b ↔ a.start < b.start ∨ a.start = b.start ∧ a.stop < b.stop) ∧
    (tree.nodes.Pairwise (fun former latter => former.range < latter.range) ∧
      ∀ node : ProgressNode, (tree.withNodes [node]).nodes = node.put tree.nodes) ∧
    (∀ range, (tree.find? range = none ↔ ∀ call ∈ calls, call.range ≠ range) ∧
      ∀ node, tree.find? range = some node ↔ IsLast calls node ∧ node.range = range) ∧
    (∀ first second : ProgressNode, first.range ≠ second.range →
      tree.withNodes [first, second] = tree.withNodes [second, first]) ∧
    (∀ (former latter : List ProgressNode) (earlier later : ProgressNode),
      tree.nodes = former ++ earlier :: latter → earlier.range = later.range →
        (tree.withNodes [later]).nodes = former ++ later :: latter) ∧
    ([.verified, .pending, .inconclusive, .failed, .internalError].Pairwise
        (fun better worse : ProgressStatus => better.badness < worse.badness) ∧
      (calls = [] → tree.status = .pending) ∧
      (calls ≠ [] → (∃ call, IsLast calls call ∧ call.status = tree.status) ∧
        ∀ call, IsLast calls call → call.status.badness ≤ tree.status.badness)) ∧
    ∀ others : List ProgressNode, (∀ call, IsLast others call ↔ IsLast calls call) →
      (fresh document).withNodes others = tree := by
  intro tree
  have ordered : tree.IsOrdered := (isOrdered_fresh document).withNodes calls
  have isNode : ∀ node, node ∈ tree.nodes ↔ IsLast calls node :=
    mem_nodes_withNodes_fresh document calls
  refine ⟨⟨inferInstance, Range.lt_iff⟩, ⟨ordered, ordered.place_eq_put⟩, fun range => ⟨?_, ?_⟩,
    fun _ _ => ordered.withNodes_comm, ?_, ⟨ProgressStatus.pairwise_badness, ?_, ?_⟩, ?_⟩
  · rw [find?_withNodes_fresh]
    simp
  · intro node
    rw [← isNode, ordered.mem_nodes_iff]
    constructor
    · intro found
      have isRange : node.range = range := by simpa using List.find?_some found
      exact ⟨isRange.symm ▸ found, isRange⟩
    · rintro ⟨found, rfl⟩
      exact found
  · intro former latter earlier later parts same
    have isThere : ProgressNode.AreOrdered (former ++ earlier :: latter) := parts ▸ ordered
    exact (congrArg later.place parts).trans (isThere.place_of_range_eq same)
  · rintro rfl
    rfl
  · exact status_withNodes_fresh document
  · intro others same
    refine (isOrdered_fresh document).withNodes_eq_of_mem_iff fun node => ?_
    rw [mem_nodes_withNodes_fresh, same, isNode]

/-- Of a reversed range and an empty one within it, the reversed one is before the other, whichever
was recorded first, and what was recorded first for it is not kept. -/
theorem keepsLastRecords_sample :
    let document : Document := { uri := "a", contents := [120] }
    let reversed : Range := { start := ⟨1, 2⟩, stop := ⟨1, 1⟩ }
    let empty : Range := { start := ⟨1, 3⟩, stop := ⟨1, 3⟩ }
    let calls : List ProgressNode :=
      [⟨"f", empty, .failed⟩, ⟨"g", reversed, .internalError⟩, ⟨"g", reversed, .verified⟩]
    let tree := (fresh document).withNodes calls
    tree.find? reversed = some ⟨"g", reversed, .verified⟩ ∧
      (tree.withNodes [⟨"h", reversed, .pending⟩]).nodes =
        [⟨"h", reversed, .pending⟩, ⟨"f", empty, .failed⟩] ∧
      tree.withNodes [⟨"h", reversed, .pending⟩, ⟨"i", empty, .verified⟩] =
        tree.withNodes [⟨"i", empty, .verified⟩, ⟨"h", reversed, .pending⟩] ∧
      (tree.status = .failed ∧ ProgressStatus.verified.badness ≤ tree.status.badness) ∧
      (fresh document).withNodes [⟨"g", reversed, .verified⟩, ⟨"f", empty, .failed⟩] = tree := by
  intro document reversed empty calls tree
  rcases keepsLastRecords document calls with
    ⟨_, _, finds, commute, replaces, ⟨_, _, isWorst⟩, determined⟩
  have isLast : IsLast calls ⟨"g", reversed, .verified⟩ :=
    ⟨[⟨"f", empty, .failed⟩, ⟨"g", reversed, .internalError⟩], [], rfl, by simp⟩
  have least := (isWorst (by simp [calls])).2 _ isLast
  have sameLast (call : ProgressNode) :
      IsLast [⟨"g", reversed, .verified⟩, ⟨"f", empty, .failed⟩] call ↔ IsLast calls call := by
    rw [← mem_nodes_withNodes_fresh document, ← mem_nodes_withNodes_fresh document]
    rfl
  exact ⟨((finds reversed).2 _).mpr ⟨isLast, rfl⟩, replaces [] _ _ _ rfl rfl,
    commute _ _ (by decide), ⟨by decide, least⟩, determined _ sameLast⟩

end ProgressTree

end Proofline
