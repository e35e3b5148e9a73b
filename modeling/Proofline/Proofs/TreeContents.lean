import Proofline.Proofs.Survival

/-!
# What progress trees describe

From its parsed snapshot on a version has one progress tree for every name of a root
document, and each tree describes a root document of that name in this very version. It is
not enough that trees are carried over for documents that did not change: nodes are added
to them at resolution and results recorded by verification, for any units that the parser
came up with, and none of this may lose a tree or make up one.
-/

namespace Proofline

/-- Whether a tree is the progress of a given text under a given name. -/
structure ProgressTree.IsOf (uri : String) (document : Document) (tree : ProgressTree) : Prop where
  named : document.uri = uri
  uri_eq : tree.uri = uri
  hash_eq : tree.hash = document.hash
  lines_eq : tree.lines = document.lineCount

theorem ProgressTree.isOf_of_describes {uri : String} {document : Document}
    {tree : ProgressTree} (named : document.uri = uri)
    (describes : tree.describes document = true) : tree.IsOf uri document := by
  rcases (tree.describes_iff document).mp describes with ⟨sameUri, sameHash, sameLines⟩
  exact ⟨named, sameUri.symm.trans named, sameHash.symm, sameLines.symm⟩

namespace Snapshot

/-- Whether a snapshot has a tree for every name of a root document, and no others, once
anything is loaded of it. -/
def CoversRoots (snapshot : Snapshot) : Prop :=
  snapshot.stage ≠ .unloaded → ∀ uri, uri ∈ snapshot.trees ↔ uri ∈ snapshot.compilation.rootUris

/-- Whether the trees of a snapshot are those of its root documents. -/
structure HasOwnTrees (snapshot : Snapshot) : Prop where
  keys : ∀ uri, uri ∈ snapshot.trees ↔ uri ∈ snapshot.compilation.rootUris
  describe : ∀ (uri : String) (tree : ProgressTree), snapshot.trees[uri]? = some tree →
    ∃ document ∈ snapshot.compilation.roots, tree.IsOf uri document

/-- Trees that have grown are those of the same documents. -/
theorem CoversRoots.of_growTo {before after : Snapshot} (covers : before.CoversRoots)
    (loaded : before.stage ≠ .unloaded) (same : after.compilation = before.compilation)
    (grow : before.trees.GrowTo after.results after.trees) : after.CoversRoots := by
  intro _ uri
  rw [same, ← covers loaded uri]
  exact grow.mem_iff uri

end Snapshot

/-- A version begins with a tree for every name of a root document. -/
theorem Parsed.mem_initialTrees (compilation : Compilation) (migrated : ProgressTrees)
    (uri : String) :
    uri ∈ initialTrees compilation migrated ↔ uri ∈ compilation.rootUris := by
  rw [Std.ExtTreeMap.mem_iff_isSome_getElem?, getElem?_initialTrees, Option.isSome_map,
    ← Compilation.isRoot_iff]
  rfl

/-- The tree with which a document begins is carried over as it was, or has no nodes. -/
theorem Parsed.eq_or_nodes_eq_nil {previous : ProgressTrees} {compilation : Compilation}
    {uri : String} {tree : ProgressTree}
    (found : (initialTrees compilation (previous.migrate compilation))[uri]? = some tree) :
    previous[uri]? = some tree ∨ tree.nodes = [] := by
  rw [getElem?_initialTrees, Option.map_eq_some_iff] at found
  rcases found with ⟨document, _, rfl⟩
  cases carried : (previous.migrate compilation)[uri]? with
  | some tree =>
      rw [ProgressTrees.getElem?_migrate, Option.filter_eq_some_iff] at carried
      exact Or.inl carried.1
  | none => exact Or.inr rfl

/-- The next latest snapshot covers its root documents, too. -/
theorem Descends.coversRoots {number : Nat} {past : List ChronicleEntry} {event : Event}
    {before after : Snapshot} (descends : Descends number past event before after)
    (covers : before.CoversRoots) : after.CoversRoots := by
  cases descends with
  | kept _ same => rwa [same]
  | opened _ _ unloaded => exact fun loaded => absurd unloaded loaded
  | accepted _ _ grounds =>
      cases after with
      | unloaded => exact fun loaded => absurd rfl loaded
      | parsed parsed =>
          rcases grounds with ⟨origin, _, isInitial⟩
          intro _ uri
          rw [Snapshot.trees, isInitial, Parsed.mem_initialTrees]
          rfl
      | resolved | verified =>
          have grown := grounds.growTo (by simp [Snapshot.stage, Stage.rank]) (.refl _ _)
          exact covers.of_growTo (grounds.stage_ne (by simp [Snapshot.stage, Stage.rank]))
            grown.1 grown.2

/-- What the trees are of the snapshots that a manager accepts. -/
structure HasSoundTrees (number : Nat) (chronicle : List ChronicleEntry) : Prop where
  /-- From the parsed snapshot on, they are those of the root documents. -/
  own : ∀ past entry later, chronicle = past ++ entry :: later →
    ∀ snapshot : Snapshot, entry.event.accepted? number = some snapshot →
      snapshot.stage ≠ .unloaded → snapshot.HasOwnTrees
  /-- A parsed version takes a tree over as a whole from the snapshot that was the latest one
  when its update began, or begins it without nodes. -/
  whole : ∀ past entry later, chronicle = past ++ entry :: later →
    ∀ parsed, entry.event.accepted? number = some (.parsed parsed) →
      ∃ origin, UpdateBegan number parsed.compilation.version origin past ∧
        ∀ (uri : String) (tree : ProgressTree), parsed.trees[uri]? = some tree →
          origin.trees[uri]? = some tree ∨ tree.nodes = []

namespace Session

namespace Occurs

variable {session : Session} {number : Nat}

/-- In every session the latest snapshot covers its root documents. -/
theorem coversRoots (occurs : session.Occurs) (number : Nat)
    {entries later : List ChronicleEntry} (parts : session.chronicle = entries ++ later) :
    (latestAfter number entries).CoversRoots :=
  occurs.latestAfter_of_descends number (absurd rfl) Descends.coversRoots parts

/-- In every session the trees of the latest snapshot are its own once anything is loaded of
it. -/
theorem hasOwnTrees (occurs : session.Occurs) {entries later : List ChronicleEntry}
    (parts : session.chronicle = entries ++ later)
    (loaded : (latestAfter number entries).stage ≠ .unloaded) :
    (latestAfter number entries).HasOwnTrees where
  keys := occurs.coversRoots number parts loaded
  describe uri tree found := by
    rcases occurs.describesRoots number parts uri tree found with
      ⟨document, isRoot, named, describes⟩
    exact ⟨document, isRoot, ProgressTree.isOf_of_describes named describes⟩

theorem hasSoundTrees (occurs : session.Occurs) (number : Nat) :
    HasSoundTrees number session.chronicle where
  own past entry later parts snapshot isAccepted loaded := by
    have accepted := occurs.isReachable.history.1.latest_of_accepted (by simp [parts]) isAccepted
    have isLatest : latestAfter number (past ++ [entry]) = snapshot := by
      rw [latestAfter_append_singleton]
      exact accepted.2
    have split : session.chronicle = (past ++ [entry]) ++ later := by simp [parts]
    rw [← isLatest] at loaded ⊢
    exact occurs.hasOwnTrees split loaded
  whole past entry later parts parsed isAccepted := by
    have grounds := occurs.hasGrounds parts
    rw [Event.eq_of_accepted? isAccepted] at grounds
    rcases grounds with ⟨origin, began, isInitial⟩
    refine ⟨origin, began, fun uri tree found => ?_⟩
    rw [isInitial] at found
    exact Parsed.eq_or_nodes_eq_nil found

end Occurs

/-- In every run the trees of accepted snapshots describe the text of their own version. -/
theorem hasSoundTrees_run (options : Options) (n : Nat) (steps : List (Step n)) (number : Nat) :
    HasSoundTrees number (run options n steps).2.chronicle :=
  (occurs_run options n steps).hasSoundTrees number

end Session

end Proofline
