import Mathlib.Data.Option.Basic
import Proofline.Proofs.Descent

/-!
# How progress trees grow

From its first snapshot on, the trees of a version only grow: resolution adds pending
nodes for units without a node, and verification records results. A newer version
carries over the trees that describe its root documents, and begins the other ones anew.
-/

namespace Proofline

/-- The results that a snapshot holds. -/
def Snapshot.results : Snapshot → Table UnitKey UnitResult
  | unloaded _ | parsed _ | resolved _ => ∅
  | verified snapshot => snapshot.results

/-- Whether a tree is another one to which nothing was added but pending nodes and nodes
that tell results for a document. -/
structure ProgressTree.GrowsTo (uri : String) (results : Table UnitKey UnitResult)
    (first last : ProgressTree) : Prop where
  sameText : { first with nodes := last.nodes } = last
  nodes : ∀ range, last.find? range = first.find? range ∨
    (first.find? range = none ∧
      ∃ name, last.find? range = some { name, range, status := .pending }) ∨
    ∃ result, results[({ uri, range } : UnitKey)]? = some result ∧
      last.find? range = some { name := result.name, range, status := result.status }

namespace ProgressTree.GrowsTo

variable {uri : String} {results : Table UnitKey UnitResult} {first last : ProgressTree}

theorem refl (uri : String) (results : Table UnitKey UnitResult) (tree : ProgressTree) :
    tree.GrowsTo uri results tree where
  sameText := rfl
  nodes _ := Or.inl rfl

/-- What a tree describes, it still describes when it has grown. -/
theorem describes_eq (grows : first.GrowsTo uri results last) (document : Document) :
    last.describes document = first.describes document := by
  rw [← grows.sameText]
  rfl

/-- A pending node is added where there was none. -/
theorem await (grows : first.GrowsTo uri results last) (name : String) {range : Range}
    (unknown : last.find? range = none) :
    first.GrowsTo uri results (last.withNode name range .pending) where
  sameText := by
    rw [← grows.sameText]
    rfl
  nodes other := by
    by_cases same : range = other
    · subst same
      rcases grows.nodes range with unchanged | ⟨_, _, isPending⟩ | ⟨_, _, told⟩
      · exact Or.inr (Or.inl ⟨unchanged.symm.trans unknown, name, find?_withNode_self ..⟩)
      · simp [unknown] at isPending
      · simp [unknown] at told
    · rw [find?_withNode_of_ne last name same]
      exact grows.nodes other

/-- A result is recorded, and its node placed. -/
theorem record (grows : first.GrowsTo uri results last) (range : Range) (result : UnitResult) :
    first.GrowsTo uri (results.insert { uri, range } result)
      (last.withNode result.name range result.status) where
  sameText := by
    rw [← grows.sameText]
    rfl
  nodes other := by
    by_cases same : range = other
    · subst same
      exact Or.inr (Or.inr ⟨result, by simp, find?_withNode_self ..⟩)
    · rw [find?_withNode_of_ne last result.name same, Std.ExtTreeMap.getElem?_insert]
      simpa [same] using grows.nodes other

/-- The result of another document is recorded. -/
theorem insert_of_ne (grows : first.GrowsTo uri results last) {key : UnitKey}
    (ne : key.uri ≠ uri) (result : UnitResult) :
    first.GrowsTo uri (results.insert key result) last where
  sameText := grows.sameText
  nodes range := by
    have other : key ≠ { uri, range } := fun same => ne (congrArg UnitKey.uri same)
    simpa [Std.ExtTreeMap.getElem?_insert, other] using grows.nodes range

end ProgressTree.GrowsTo

namespace ProgressTrees

/-- Whether trees are other ones, of the same documents, that have grown. -/
def GrowTo (results : Table UnitKey UnitResult) (first last : ProgressTrees) : Prop :=
  ∀ uri, Option.Rel (ProgressTree.GrowsTo uri results) first[uri]? last[uri]?

theorem rel_mono {finer coarser : ProgressTree → ProgressTree → Prop}
    {first last : Option ProgressTree} (related : Option.Rel finer first last)
    (weaker : ∀ {before after}, finer before after → coarser before after) :
    Option.Rel coarser first last := by
  cases related with
  | none => exact .none
  | some once => exact .some (weaker once)

section Related

variable {finer coarser : String → ProgressTree → ProgressTree → Prop} {first last : ProgressTrees}

/-- What relates trees of the same documents still does when one of the trees is replaced. -/
theorem rel_insert (related : ∀ uri, Option.Rel (finer uri) first[uri]? last[uri]?)
    {uri : String} {tree grown : ProgressTree} (found : last[uri]? = some tree)
    (grows : ∀ {before : ProgressTree}, finer uri before tree → coarser uri before grown)
    (others : ∀ {other : String} {before after : ProgressTree}, uri ≠ other →
      finer other before after → coarser other before after) (other : String) :
    Option.Rel (coarser other) first[other]? (last.insert uri grown)[other]? := by
  have related := related other
  rw [Std.ExtTreeMap.getElem?_insert]
  by_cases same : uri = other
  · subst same
    rw [if_pos (by simp)]
    rw [found] at related
    cases before : first[uri]? with
    | none =>
        rw [before] at related
        cases related
    | some tree =>
        rw [before] at related
        cases related with
        | some once => exact .some (grows once)
  · rw [if_neg (by simpa using same)]
    exact rel_mono related (others same)

/-- What relates trees of the same documents still does when a status is recorded. -/
theorem rel_recordStatus (related : ∀ uri, Option.Rel (finer uri) first[uri]? last[uri]?)
    {unit : Declaration} {status : ProgressStatus}
    (grows : ∀ {before tree : ProgressTree}, finer unit.uri before tree →
      coarser unit.uri before (tree.withNode unit.name unit.range status))
    (others : ∀ {other : String} {before after : ProgressTree}, unit.uri ≠ other →
      finer other before after → coarser other before after) (other : String) :
    Option.Rel (coarser other) first[other]? (Verified.recordStatus last unit status)[other]? := by
  unfold Verified.recordStatus
  split
  · rename_i unknown
    by_cases same : unit.uri = other
    · subst same
      have related := related unit.uri
      rw [unknown] at related ⊢
      generalize first[unit.uri]? = before at related ⊢
      cases related
      exact .none
    · exact rel_mono (related other) (others same)
  · rename_i tree found
    exact rel_insert related found grows others other

end Related

namespace GrowTo

variable {results : Table UnitKey UnitResult} {first last : ProgressTrees}

theorem refl (results : Table UnitKey UnitResult) (trees : ProgressTrees) :
    trees.GrowTo results trees := by
  intro uri
  cases trees[uri]? with
  | none => exact .none
  | some tree => exact .some (.refl uri results tree)

/-- Trees grow, but none is lost and none made up. -/
theorem mem_iff (grow : first.GrowTo results last) (uri : String) : uri ∈ last ↔ uri ∈ first := by
  rw [Std.ExtTreeMap.mem_iff_isSome_getElem?, Std.ExtTreeMap.mem_iff_isSome_getElem?]
  have related := grow uri
  generalize last[uri]? = grown at related ⊢
  generalize first[uri]? = former at related ⊢
  cases related with
  | none => rfl
  | some => exact Iff.rfl

/-- A range with a node keeps one. -/
theorem exists_node (grow : first.GrowTo results last) {uri : String} {tree : ProgressTree}
    (found : first[uri]? = some tree) {range : Range} {node : ProgressNode}
    (isNode : tree.find? range = some node) :
    ∃ grown later, last[uri]? = some grown ∧ grown.find? range = some later := by
  have related := grow uri
  rw [found] at related
  generalize last[uri]? = grown at related ⊢
  cases related with
  | some grows =>
      rcases grows.nodes range with same | ⟨unknown, _⟩ | ⟨_, _, told⟩
      · exact ⟨_, _, rfl, same.trans isNode⟩
      · simp [isNode] at unknown
      · exact ⟨_, _, rfl, told⟩

/-- The tree of one document grows. -/
theorem insert (grow : first.GrowTo results last) {uri : String} {tree grown : ProgressTree}
    (found : last[uri]? = some tree) {more : Table UnitKey UnitResult}
    (grows : ∀ {before : ProgressTree}, before.GrowsTo uri results tree →
      before.GrowsTo uri more grown)
    (others : ∀ {other : String} {before after : ProgressTree}, uri ≠ other →
      before.GrowsTo other results after → before.GrowsTo other more after) :
    first.GrowTo more (last.insert uri grown) :=
  rel_insert grow found grows others

theorem addPending (grow : first.GrowTo results last) (parsed : Parsed)
    (migrated : ProgressTrees) (unit : Declaration) :
    first.GrowTo results (Resolved.addPending parsed migrated last unit) := by
  unfold Resolved.addPending
  split
  · exact grow
  · rename_i tree found
    split
    · exact grow
    · rename_i unknown
      rw [Bool.or_eq_true, not_or, Bool.not_eq_true, Bool.not_eq_true,
        Option.isSome_eq_false_iff, Option.isNone_iff_eq_none] at unknown
      exact grow.insert found (fun grows => grows.await unit.name unknown.2) fun _ => id

theorem foldl_addPending (grow : first.GrowTo results last) (parsed : Parsed)
    (migrated : ProgressTrees) (units : List Declaration) :
    first.GrowTo results (units.foldl (Resolved.addPending parsed migrated) last) := by
  induction units generalizing last with
  | nil => exact grow
  | cons unit rest ih => exact ih (grow.addPending parsed migrated unit)

theorem pendingTrees (parsed : Parsed) (migrated : ProgressTrees) (units : List Declaration)
    (grow : first.GrowTo results parsed.trees) :
    first.GrowTo results (Resolved.pendingTrees parsed migrated units) :=
  grow.foldl_addPending parsed migrated units

theorem recordStatus (grow : first.GrowTo results last) (unit : Declaration) (outcome : Outcome) :
    first.GrowTo
      (results.insert unit.key
        { name := unit.name, status := outcome.status, models := outcome.models })
      (Verified.recordStatus last unit outcome.status) :=
  rel_recordStatus grow (fun grows => grows.record unit.range _)
    fun ne grows => grows.insert_of_ne ne _

end GrowTo

/-- A tree is migrated if it describes a root document. -/
theorem getElem?_migrate (previous : ProgressTrees) (compilation : Compilation) (uri : String) :
    (previous.migrate compilation)[uri]? = previous[uri]?.filter fun tree =>
      compilation.roots.any fun document => document.uri = uri && tree.describes document := by
  rw [migrate, Table.getElem?_ofListFirst]
  induction compilation.roots with
  | nil => cases previous[uri]? <;> rfl
  | cons document rest ih =>
      rw [List.filterMap_cons]
      unfold carriedOver? at ih ⊢
      by_cases same : document.uri = uri
      · subst same
        cases found : previous[document.uri]? with
        | none => simpa [found] using ih
        | some tree =>
            by_cases describes : tree.describes document = true
            · simp [Option.filter, describes]
            · simpa [Option.filter, describes, found] using ih
      · cases (previous[document.uri]?).filter fun tree => tree.describes document with
        | none => simpa [same] using ih
        | some tree => simpa [same] using ih

end ProgressTrees

/-- Each root document of a parsed version has its tree migrated or begins a new one. -/
theorem Parsed.getElem?_initialTrees (compilation : Compilation) (migrated : ProgressTrees)
    (uri : String) :
    (initialTrees compilation migrated)[uri]? =
      (compilation.findRoot? uri).map fun document =>
        (migrated[uri]?).getD (.fresh document) := by
  rw [initialTrees, Table.getElem?_ofListFirst, List.find?_map, Option.map_map,
    Compilation.findRoot?]
  change (compilation.roots.find? fun document => document.uri = uri).map _ = _
  cases found : compilation.roots.find? fun document => document.uri = uri with
  | none => rfl
  | some document =>
      have named : document.uri = uri := by simpa using List.find?_some found
      simp [named]

end Proofline
