import Mathlib.Data.List.Shortlex
import Mathlib.Logic.Function.Iterate
import Proofline.Proofs.ExtractedItems

/-!
# Expansion

Expanding a state lists its bindings level by level: those of the state, then their fields, then
the fields of these, and on each level in the order of the bindings they are fields of. One level
more adds one level at the end, until there is none left.
-/

namespace Proofline

namespace Binding

variable {bindings : List Binding} {depth level : Nat}

section Levels

/-- The bindings at a nesting level, in the order of the bindings they are fields of. -/
def atLevel (bindings : List Binding) : Nat → List Binding
  | 0 => bindings
  | level + 1 => (atLevel bindings level).flatMap fields

mutual

/-- The number of levels of a binding, its own included. -/
def ownLevels : Binding → Nat
  | ⟨_, _, _, fields⟩ => levelCount fields + 1

/-- The number of levels of nested bindings. -/
def levelCount : List Binding → Nat
  | [] => 0
  | binding :: rest => max binding.ownLevels (levelCount rest)

end

/-- The level of the most deeply nested bindings. -/
def height (bindings : List Binding) : Nat :=
  levelCount bindings - 1

theorem ownLevels_eq (binding : Binding) : binding.ownLevels = levelCount binding.fields + 1 := by
  cases binding
  rw [ownLevels]

theorem atLevel_flatMap_fields (bindings : List Binding) (level : Nat) :
    atLevel (bindings.flatMap fields) level = atLevel bindings (level + 1) := by
  induction level with
  | zero => rfl
  | succ level ih => rw [atLevel, ih, ← atLevel]

theorem levelCount_append (first second : List Binding) :
    levelCount (first ++ second) = max (levelCount first) (levelCount second) := by
  induction first with
  | nil => simp [levelCount]
  | cons binding rest ih =>
      rw [List.cons_append, levelCount, levelCount, ih, Nat.max_assoc]

/-- The fields of bindings have one level less. -/
theorem levelCount_flatMap_fields (bindings : List Binding) :
    levelCount (bindings.flatMap fields) = levelCount bindings - 1 := by
  induction bindings with
  | nil => rfl
  | cons binding rest ih =>
      rw [List.flatMap_cons, levelCount_append, ih, levelCount, ownLevels_eq]
      omega

theorem levelCount_eq_zero_iff : levelCount bindings = 0 ↔ bindings = [] := by
  cases bindings with
  | nil => simp [levelCount]
  | cons binding rest => simp [levelCount, ownLevels_eq]

/-- A level is empty exactly if there are no more levels than those before it. -/
theorem atLevel_eq_nil_iff : atLevel bindings level = [] ↔ levelCount bindings ≤ level := by
  induction level generalizing bindings with
  | zero => rw [atLevel, Nat.le_zero, levelCount_eq_zero_iff]
  | succ level ih =>
      rw [← atLevel_flatMap_fields, ih, levelCount_flatMap_fields, Nat.sub_le_iff_le_add]

end Levels

section Waiting

/-- The bindings that wait are listed before the fields of any of them. -/
theorem expandWaiting_append (waiting behind : List Binding) :
    expandWaiting depth (waiting.map (·, level) ++ behind.map (·, level + 1)) =
      waiting ++ expandWaiting depth
        ((behind ++ waiting.flatMap (fieldsWithin depth level)).map (·, level + 1)) := by
  induction waiting generalizing behind with
  | nil => simp
  | cons binding rest ih =>
      rw [List.map_cons, List.cons_append, expandWaiting, List.append_assoc, ← List.map_append, ih,
        List.flatMap_cons, List.append_assoc, List.cons_append]

/-- When all that wait are of one level, that level is listed and the next one waits. -/
theorem expandWaiting_map (waiting : List Binding) :
    expandWaiting depth (waiting.map (·, level)) =
      waiting ++ expandWaiting depth
        ((waiting.flatMap (fieldsWithin depth level)).map (·, level + 1)) := by
  have nothingBehind := @expandWaiting_append depth level waiting []
  simpa using nothingBehind

/-- The bindings that wait are listed with all levels below them, down to the last level. -/
theorem expandWaiting_eq_flatMap (waiting : List Binding) (further : Nat)
    (within : level + further = depth) :
    expandWaiting depth (waiting.map (·, level)) =
      (List.range (further + 1)).flatMap (atLevel waiting) := by
  induction further generalizing level waiting with
  | zero =>
      have noFields : waiting.flatMap (fieldsWithin depth level) = [] :=
        List.flatMap_eq_nil_iff.mpr fun binding _ => if_neg (by omega)
      rw [expandWaiting_map, noFields]
      simp [expandWaiting, atLevel]
  | succ further ih =>
      have allFields : fieldsWithin depth level = fields := by
        funext binding
        rw [fieldsWithin, if_pos (by omega)]
      have below : atLevel (waiting.flatMap fields) = fun level => atLevel waiting (level + 1) :=
        funext (atLevel_flatMap_fields waiting)
      rw [expandWaiting_map, allFields, ih _ (by omega), below,
        List.range_succ_eq_map (n := further + 1), List.flatMap_cons, List.flatMap_map]
      rfl

/-- One turn of the expansion: of the bindings that wait, the first is listed, and its fields
wait behind all that wait already. Nothing happens when none waits. -/
def turn (depth : Nat) :
    List Binding × List (Binding × Nat) → List Binding × List (Binding × Nat)
  | (listed, []) => (listed, [])
  | (listed, (binding, level) :: waiting) =>
      (listed ++ [binding],
        waiting ++ (binding.fieldsWithin depth level).map fun field => (field, level + 1))

/-- Turn by turn, all bindings are listed that are to be, until none waits. -/
theorem iterate_turn (waiting : List (Binding × Nat)) (listed : List Binding) :
    (turn depth)^[(expandWaiting depth waiting).length] (listed, waiting) =
      (listed ++ expandWaiting depth waiting, []) := by
  induction waiting using expandWaiting.induct depth generalizing listed with
  | case1 => simp [expandWaiting]
  | case2 binding level waiting fields ih =>
      rw [expandWaiting, List.length_cons, Function.iterate_succ_apply, turn, ih,
        List.append_assoc, List.singleton_append]

/-- No more bindings are listed than there are. -/
theorem length_expandWaiting_le (waiting : List (Binding × Nat)) :
    (expandWaiting depth waiting).length ≤ weights (waiting.map Prod.fst) := by
  induction waiting using expandWaiting.induct depth with
  | case1 => simp [expandWaiting]
  | case2 binding level waiting fields ih =>
      have lighter := weights_fieldsWithin_lt depth level binding
      rw [expandWaiting, List.length_cons]
      simp only [fields, List.map_append, List.map_map, Function.comp_def, List.map_id_fun', id_eq,
        weights_append] at ih
      simp only [List.map_cons, weights]
      omega

end Waiting

section Addresses

/-- Where a binding stands among nested ones: its place at the top, or behind the address of the
binding it is a field of, its place among the fields. -/
inductive StandsAt (bindings : List Binding) : List Nat → Binding → Prop
  | top {place : Nat} {binding : Binding} (found : bindings[place]? = some binding) :
      StandsAt bindings [place] binding
  | field {address : List Nat} {place : Nat} {binding field : Binding}
      (stands : StandsAt bindings address binding) (found : binding.fields[place]? = some field) :
      StandsAt bindings (address ++ [place]) field

theorem StandsAt.address_ne_nil {address : List Nat} {binding : Binding}
    (stands : StandsAt bindings address binding) : address ≠ [] := by
  cases stands with
  | top => simp
  | field => simp

/-- Bindings with their addresses, which end in their places. -/
def addressed (address : List Nat) (bindings : List Binding) : List (List Nat × Binding) :=
  bindings.zipIdx.map fun (binding, place) => (address ++ [place], binding)

/-- The bindings at a nesting level with their addresses. -/
def addressedAt (bindings : List Binding) : Nat → List (List Nat × Binding)
  | 0 => addressed [] bindings
  | level + 1 => (addressedAt bindings level).flatMap fun (address, binding) =>
      addressed address binding.fields

theorem map_snd_addressed (address : List Nat) (bindings : List Binding) :
    (addressed address bindings).map Prod.snd = bindings := by
  simp [addressed, Function.comp_def]

theorem map_snd_addressedAt (bindings : List Binding) (level : Nat) :
    (addressedAt bindings level).map Prod.snd = atLevel bindings level := by
  induction level with
  | zero => exact map_snd_addressed [] bindings
  | succ level ih =>
      rw [addressedAt, atLevel, ← ih, List.map_flatMap, List.flatMap_map]
      simp only [map_snd_addressed]

theorem mem_addressed_iff {start address : List Nat} {binding : Binding} :
    (address, binding) ∈ addressed start bindings ↔
      ∃ place, bindings[place]? = some binding ∧ address = start ++ [place] := by
  simp only [addressed, List.mem_map, Prod.exists, List.mem_zipIdx_iff_getElem?, Prod.mk.injEq]
  constructor
  · rintro ⟨_, place, found, rfl, rfl⟩
    exact ⟨place, found, rfl⟩
  · rintro ⟨place, found, rfl⟩
    exact ⟨binding, place, found, rfl, rfl⟩

/-- The bindings at a nesting level are those with an address of one number more. -/
theorem mem_addressedAt_iff {address : List Nat} {binding : Binding} :
    (address, binding) ∈ addressedAt bindings level ↔
      StandsAt bindings address binding ∧ address.length = level + 1 := by
  induction level generalizing address binding with
  | zero =>
      rw [addressedAt, mem_addressed_iff]
      constructor
      · rintro ⟨place, found, rfl⟩
        exact ⟨.top found, rfl⟩
      · rintro ⟨stands, short⟩
        cases stands with
        | top found => exact ⟨_, found, rfl⟩
        | field stands found => exact absurd (by simpa using short) stands.address_ne_nil
  | succ level ih =>
      simp only [addressedAt, List.mem_flatMap, Prod.exists, mem_addressed_iff, ih]
      constructor
      · rintro ⟨start, holder, ⟨stands, length⟩, place, found, rfl⟩
        exact ⟨.field stands found, by simp [length]⟩
      · rintro ⟨stands, length⟩
        cases stands with
        | top found => simp at length
        | field stands found => exact ⟨_, _, ⟨stands, by simpa using length⟩, _, found, rfl⟩

/-- Of two addresses of the same level, the order does not depend on what comes behind. -/
theorem lex_append_singleton {former latter : List Nat} (before : List.Lex (· < ·) former latter)
    (same : former.length = latter.length) (place other : Nat) :
    List.Lex (· < ·) (former ++ [place]) (latter ++ [other]) := by
  induction before with
  | nil => simp at same
  | cons before ih => exact .cons (ih (by simpa using same))
  | rel before => exact .rel before

theorem pairwise_addressed (address : List Nat) (bindings : List Binding) :
    (addressed address bindings).Pairwise fun former latter =>
      List.Lex (· < ·) former.1 latter.1 := by
  have places : bindings.zipIdx.Pairwise fun former latter => former.2 < latter.2 := by
    rw [← List.pairwise_map (f := Prod.snd), List.zipIdx_map_snd]
    exact List.pairwise_lt_range'
  rw [addressed, List.pairwise_map]
  refine places.imp fun {former latter} before => ?_
  exact List.Lex.append_left (· < ·) (.rel before) address

/-- On each level the addresses stand in lexicographic order. -/
theorem pairwise_addressedAt (bindings : List Binding) (level : Nat) :
    (addressedAt bindings level).Pairwise fun former latter =>
      List.Lex (· < ·) former.1 latter.1 := by
  induction level with
  | zero => exact pairwise_addressed [] bindings
  | succ level ih =>
      rw [addressedAt, List.pairwise_flatMap]
      refine ⟨fun holder _ => pairwise_addressed _ _, ?_⟩
      refine ih.imp_of_mem fun {former latter} isFormer isLatter before => ?_
      rintro ⟨first, _⟩ isFirst ⟨second, _⟩ isSecond
      obtain ⟨place, _, rfl⟩ := mem_addressed_iff.mp isFirst
      obtain ⟨other, _, rfl⟩ := mem_addressed_iff.mp isSecond
      have formerLength := (mem_addressedAt_iff.mp isFormer).2
      have latterLength := (mem_addressedAt_iff.mp isLatter).2
      exact lex_append_singleton before (formerLength.trans latterLength.symm) place other

/-- Whether bindings with their addresses are those down to a nesting level, each of them once:
level by level, and on a level in the order of the bindings they are fields of. The bindings of a
level have addresses of one number more, and strictly before another address are all shorter ones
and those of the same length that are less at the first place where they differ. -/
structure ListsWithin (bindings : List Binding) (depth : Nat)
    (places : List (List Nat × Binding)) : Prop where
  mem_iff : ∀ (address : List Nat) (binding : Binding), (address, binding) ∈ places ↔
    StandsAt bindings address binding ∧ address.length ≤ depth + 1
  inOrder : (places.map Prod.fst).Pairwise (List.Shortlex (· < ·))

theorem listsWithin (bindings : List Binding) (depth : Nat) :
    ListsWithin bindings depth ((List.range (depth + 1)).flatMap (addressedAt bindings)) where
  mem_iff address binding := by
    simp only [List.mem_flatMap, List.mem_range, mem_addressedAt_iff]
    constructor
    · rintro ⟨level, within, stands, length⟩
      exact ⟨stands, by omega⟩
    · rintro ⟨stands, short⟩
      have nonempty := List.length_pos_of_ne_nil stands.address_ne_nil
      exact ⟨address.length - 1, by omega, stands, by omega⟩
  inOrder := by
    rw [List.pairwise_map, List.pairwise_flatMap]
    constructor
    · intro level _
      refine (pairwise_addressedAt bindings level).imp_of_mem
        fun {former latter} isFormer isLatter before => ?_
      have formerLength := (mem_addressedAt_iff.mp isFormer).2
      have latterLength := (mem_addressedAt_iff.mp isLatter).2
      exact .of_lex (formerLength.trans latterLength.symm) before
    · refine List.pairwise_lt_range.imp fun {shallow deep} before => ?_
      intro former isFormer latter isLatter
      have formerLength := (mem_addressedAt_iff.mp isFormer).2
      have latterLength := (mem_addressedAt_iff.mp isLatter).2
      exact .of_length_lt (by omega)

end Addresses

end Binding

namespace ModelState

variable (state : ModelState) {depth deeper : Nat}

open Binding (atLevel height)

/-- Expansion lists a state level by level. -/
theorem expanded_eq_flatMap (depth : Nat) :
    state.expanded depth = (List.range (depth + 1)).flatMap (atLevel state.bindings) :=
  Binding.expandWaiting_eq_flatMap state.bindings depth (Nat.zero_add depth)

/-- Expansion one level deeper appends that level. -/
theorem expanded_succ (depth : Nat) :
    state.expanded (depth + 1) = state.expanded depth ++ atLevel state.bindings (depth + 1) := by
  rw [expanded_eq_flatMap, List.range_succ, List.flatMap_append, ← expanded_eq_flatMap,
    List.flatMap_singleton]

theorem expanded_prefix (notLess : depth ≤ deeper) :
    state.expanded depth <+: state.expanded deeper := by
  induction deeper, notLess using Nat.le_induction with
  | base => exact List.prefix_rfl
  | succ deeper _ ih =>
      rw [expanded_succ]
      exact ih.trans (List.prefix_append _ _)

/-- Expansion does not change any more exactly from the level of the most deeply nested bindings
on. -/
theorem expanded_stays_iff :
    (∀ deeper, depth ≤ deeper → state.expanded deeper = state.expanded depth) ↔
      height state.bindings ≤ depth := by
  rw [height, Nat.sub_le_iff_le_add]
  constructor
  · intro stays
    have same := stays (depth + 1) (Nat.le_succ depth)
    rw [expanded_succ, List.append_right_eq_self] at same
    exact Binding.atLevel_eq_nil_iff.mp same
  · intro deepest deeper notLess
    induction deeper, notLess using Nat.le_induction with
    | base => rfl
    | succ deeper notLess ih =>
        have none : atLevel state.bindings (deeper + 1) = [] :=
          Binding.atLevel_eq_nil_iff.mpr (by omega)
        rw [expanded_succ, none, List.append_nil, ih]

/-- Every key that is shown is shown by deeper expansions as well. -/
theorem mem_shownValues_of_le (notLess : depth ≤ deeper) {key : String}
    (shown : key ∈ state.shownValues depth) : key ∈ state.shownValues deeper := by
  obtain ⟨binding, mem, isKey⟩ := mem_shownValues.mp shown
  exact mem_shownValues.mpr ⟨binding, (state.expanded_prefix notLess).mem mem, isKey⟩

end ModelState

/-- Extraction goes as well at any greater depth, and its items show at least the same keys. -/
theorem Model.extract_of_le {models : List Model} {depth deeper : Nat} {items : List Item}
    (notLess : depth ≤ deeper) (extracted : extract models depth false = .ok items) :
    ∃ deeperItems, extract models deeper false = .ok deeperItems ∧
      List.Forall₂ (fun item deeperItem : Item =>
        ∀ key : String, key ∈ item.values → key ∈ deeperItem.values) items deeperItems := by
  simp only [extract, itemsOf_eq_ok_iff] at extracted ⊢
  generalize shown ((numberedStates models).map Prod.snd) = states at extracted ⊢
  induction extracted with
  | nil => exact ⟨[], .nil, .nil⟩
  | cons shows _ ih =>
      obtain ⟨position, found, rfl⟩ := shows
      obtain ⟨others, showOthers, more⟩ := ih
      exact ⟨_, .cons ⟨position, found, rfl⟩ showOthers,
        .cons (fun _ => ModelState.mem_shownValues_of_le _ notLess) more⟩

/-- The expansion of a state ends, after no more turns than it has bindings, and lists those down
to the given level, each of them once, level by level. So one level more only appends to what is
listed, and nothing is appended any more exactly from the height of the state on. The items that
are extracted from states show no fewer keys at any greater depth. -/
theorem ModelState.expandsByLevel (state : ModelState) (depth : Nat) :
    ((state.expanded depth).length ≤ Binding.weights state.bindings ∧
      (Binding.turn depth)^[(state.expanded depth).length]
        ([], state.bindings.map fun binding => (binding, 0)) = (state.expanded depth, [])) ∧
    (∃ places, Binding.ListsWithin state.bindings depth places ∧
      places.map Prod.snd = state.expanded depth) ∧
    state.expanded depth <+: state.expanded (depth + 1) ∧
    ((∀ deeper, depth ≤ deeper → state.expanded deeper = state.expanded depth) ↔
      Binding.height state.bindings ≤ depth) ∧
    ∀ (models : List Model) (deeper : Nat) (items : List Item), depth ≤ deeper →
      Model.extract models depth false = .ok items →
      ∃ deeperItems, Model.extract models deeper false = .ok deeperItems ∧
        List.Forall₂ (fun item deeperItem : Item =>
          ∀ key : String, key ∈ item.values → key ∈ deeperItem.values) items deeperItems := by
  refine ⟨⟨?_, ?_⟩, ?_, state.expanded_prefix (Nat.le_succ depth), state.expanded_stays_iff,
    fun _ _ _ => Model.extract_of_le⟩
  · have bounded : (state.expanded depth).length ≤
        Binding.weights ((state.bindings.map fun binding => (binding, 0)).map Prod.fst) :=
      Binding.length_expandWaiting_le _
    rwa [List.map_map, Function.comp_def, List.map_id'] at bounded
  · exact Binding.iterate_turn _ []
  · refine ⟨_, Binding.listsWithin state.bindings depth, ?_⟩
    rw [expanded_eq_flatMap, List.map_flatMap]
    simp only [Binding.map_snd_addressedAt]

/-- A list of two nodes is expanded completely at the depth two, and keeps there the keys that are
shown without any of its fields. -/
theorem ModelState.expandsByLevel_sample :
    let next : Binding := ⟨"n.next", "_module.Node", "Node(2)", [⟨"n.next.val", "int", "2", []⟩]⟩
    let node : Binding := ⟨"n", "_module.Node", "Node(1)", [⟨"n.val", "int", "1", []⟩, next]⟩
    let state : ModelState := ⟨"a(3,5)", [⟨"x", "int", "1", []⟩, node]⟩
    let models : List Model := [⟨[⟨"<initial>", []⟩, state]⟩]
    (Binding.height state.bindings = 2 ∧
      ∀ deeper, 2 ≤ deeper → state.expanded deeper = state.expanded 2) ∧
    ∃ items deeperItems, Model.extract models 0 false = .ok items ∧
      Model.extract models 2 false = .ok deeperItems ∧
      List.Forall₂ (fun item deeperItem : Item =>
        ∀ key : String, key ∈ item.values → key ∈ deeperItem.values) items deeperItems := by
  intro next node state models
  have isHeight : Binding.height state.bindings = 2 := by decide
  have stays := (expandsByLevel state 2).2.2.2.1.mpr (Nat.le_of_eq isHeight)
  have extracted : Model.extract models 0 false = .ok [state.item 0 ⟨3, 5⟩] :=
    Model.itemsOf_eq_ok_iff.mpr (.cons ⟨⟨3, 5⟩, by decide, rfl⟩ .nil)
  obtain ⟨deeperItems, deeper, more⟩ :=
    (expandsByLevel state 0).2.2.2.2 models 2 _ (Nat.zero_le 2) extracted
  exact ⟨⟨isHeight, stays⟩, _, deeperItems, extracted, deeper, more⟩

end Proofline
