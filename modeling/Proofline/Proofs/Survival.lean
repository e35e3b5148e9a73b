import Proofline.Proofs.Growth
import Proofline.Proofs.ScriptedVerifier

/-!
# What becomes of progress trees

The progress of a document that does not change lasts as long as its version does, and
a newer version takes it over from the snapshot that was the latest one when its update
began. If that was of a version whose update had come no further than to open it, there
is nothing to take over, and the document begins anew.
-/

namespace Proofline

namespace Snapshot

/-- Whether each progress tree of a snapshot describes a root document. -/
def DescribesRoots (snapshot : Snapshot) : Prop :=
  ∀ uri tree, snapshot.trees[uri]? = some tree →
    ∃ document ∈ snapshot.compilation.roots, document.uri = uri ∧ tree.describes document = true

/-- Whether a snapshot carries a tree of a document on: it has the tree, or one that has grown
from it. -/
def CarriesOn (snapshot : Snapshot) (uri : String) (tree : ProgressTree) : Prop :=
  ∃ grown, snapshot.trees[uri]? = some grown ∧ tree.GrowsTo uri snapshot.results grown

/-- Whether nothing of a version is loaded in a snapshot, or its trees have grown from given
ones. -/
def HasGrown (first : ProgressTrees) (snapshot : Snapshot) : Prop :=
  snapshot.stage = .unloaded ∨ first.GrowTo snapshot.results snapshot.trees

theorem trees_of_unloaded {snapshot : Snapshot} (unloaded : snapshot.stage = .unloaded) :
    snapshot.trees = ∅ := by
  cases snapshot with
  | unloaded => rfl
  | parsed | resolved | verified => cases unloaded

variable {number : Nat} {past : List ChronicleEntry} {before after : Snapshot}
  {first : ProgressTrees} {uri : String} {tree : ProgressTree}

/-- From the parsed snapshot of a version on, trees grow. -/
theorem HasGrounds.growTo (grounds : after.HasGrounds number past before)
    (further : Stage.resolved.rank ≤ after.stage.rank)
    (grow : first.GrowTo before.results before.trees) :
    after.compilation = before.compilation ∧ first.GrowTo after.results after.trees := by
  cases after with
  | unloaded | parsed => simp [stage, Stage.rank] at further
  | resolved resolved =>
      rcases grounds with ⟨rfl, migrated, isPending⟩
      constructor
      · rfl
      · rw [trees, isPending]
        exact grow.pendingTrees resolved.parsed migrated resolved.units
  | verified verified =>
      cases grounds with
      | start base => exact ⟨rfl, grow⟩
      | withResult partly outcome mem pending =>
          exact ⟨rfl, grow.recordStatus _ outcome⟩

/-- Something is loaded before a version is resolved or verified. -/
theorem HasGrounds.stage_ne (grounds : after.HasGrounds number past before)
    (further : Stage.resolved.rank ≤ after.stage.rank) : before.stage ≠ .unloaded := by
  cases after with
  | unloaded | parsed => simp [stage, Stage.rank] at further
  | resolved resolved =>
      rcases grounds with ⟨rfl, _⟩
      simp [stage]
  | verified verified =>
      cases grounds with
      | start | withResult => simp [stage]

theorem HasGrown.carriesOn (grown : after.HasGrown first) (found : first[uri]? = some tree) :
    after.stage = .unloaded ∨ after.CarriesOn uri tree := by
  rcases grown with unloaded | grow
  · exact Or.inl unloaded
  · have related := grow uri
    rw [found] at related
    generalize isGrown : after.trees[uri]? = grown at related
    cases related with
    | some grows => exact Or.inr ⟨_, isGrown, grows⟩

/-- Trees that have grown describe what they described. -/
theorem DescribesRoots.of_growTo (describes : before.DescribesRoots)
    (same : after.compilation = before.compilation)
    (grow : before.trees.GrowTo after.results after.trees) : after.DescribesRoots := by
  intro uri tree found
  have related := grow uri
  rw [found] at related
  generalize isEarlier : before.trees[uri]? = earlier at related
  cases related with
  | some grows =>
      rcases describes uri _ isEarlier with ⟨document, mem, named, isDescribed⟩
      rw [← grows.describes_eq] at isDescribed
      exact ⟨document, same ▸ mem, named, isDescribed⟩

end Snapshot

namespace ProgressTrees

/-- What is migrated describes a root document of the new version. -/
theorem describes_of_migrate {previous : ProgressTrees} {compilation : Compilation}
    {uri : String} {tree : ProgressTree}
    (found : (previous.migrate compilation)[uri]? = some tree) :
    ∃ document ∈ compilation.roots, document.uri = uri ∧ tree.describes document = true := by
  rw [getElem?_migrate, Option.filter_eq_some_iff, List.any_eq_true] at found
  simpa using found.2

end ProgressTrees

/-- The trees with which a version begins describe its root documents. -/
theorem Parsed.describes_of_initialTrees {previous : ProgressTrees} {compilation : Compilation}
    {uri : String} {tree : ProgressTree}
    (found : (initialTrees compilation (previous.migrate compilation))[uri]? = some tree) :
    ∃ document ∈ compilation.roots, document.uri = uri ∧ tree.describes document = true := by
  rw [getElem?_initialTrees, Option.map_eq_some_iff] at found
  rcases found with ⟨document, isRoot, rfl⟩
  cases carried : (previous.migrate compilation)[uri]? with
  | some tree => exact ProgressTrees.describes_of_migrate carried
  | none =>
      have named : document.uri = uri := by simpa using List.find?_some isRoot
      exact ⟨document, List.mem_of_find?_eq_some isRoot, named,
        ProgressTree.describes_fresh document⟩

/-- A tree that describes a root document of a version is taken over. -/
theorem Parsed.getElem?_initialTrees_of_describes {previous : ProgressTrees}
    {compilation : Compilation} {document : Document} {tree : ProgressTree}
    (isRoot : document ∈ compilation.roots) (found : previous[document.uri]? = some tree)
    (describes : tree.describes document = true) :
    (initialTrees compilation (previous.migrate compilation))[document.uri]? = some tree := by
  have migrated : (previous.migrate compilation)[document.uri]? = some tree := by
    rw [ProgressTrees.getElem?_migrate, found, Option.filter_some, if_pos]
    rw [List.any_eq_true]
    exact ⟨document, isRoot, by simp [describes]⟩
  have listed : (compilation.findRoot? document.uri).isSome = true :=
    (compilation.isRoot_iff document.uri).mpr (List.mem_map_of_mem isRoot)
  rcases Option.isSome_iff_exists.mp listed with ⟨root, isListed⟩
  rw [getElem?_initialTrees, isListed, migrated]
  rfl

namespace Descends

variable {number : Nat} {past : List ChronicleEntry} {event : Event} {before after : Snapshot}

/-- The trees of the next latest snapshot describe its root documents, too. -/
theorem describesRoots (descends : Descends number past event before after)
    (describes : before.DescribesRoots) : after.DescribesRoots := by
  cases descends with
  | kept _ same => rwa [same]
  | opened _ _ unloaded =>
      intro uri tree found
      simp [Snapshot.trees_of_unloaded unloaded] at found
  | accepted _ _ grounds =>
      cases after with
      | unloaded snapshot =>
          intro uri tree found
          simp [Snapshot.trees] at found
      | parsed parsed =>
          rcases grounds with ⟨origin, _, isInitial⟩
          intro uri tree found
          rw [Snapshot.trees, isInitial] at found
          exact Parsed.describes_of_initialTrees found
      | resolved | verified =>
          have grown := grounds.growTo (by simp [Snapshot.stage, Stage.rank]) (.refl _ _)
          exact describes.of_growTo grown.1 grown.2

/-- Unless another version is parsed, trees have still grown in the next latest snapshot. -/
theorem hasGrown (descends : Descends number past event before after) {first : ProgressTrees}
    (unparsed : ∀ parsed, event.accepted? number ≠ some (.parsed parsed))
    (grown : before.HasGrown first) : after.HasGrown first := by
  cases descends with
  | kept _ same => rwa [same]
  | opened _ _ unloaded => exact Or.inl unloaded
  | accepted isAccepted _ grounds =>
      by_cases further : Stage.resolved.rank ≤ after.stage.rank
      · have grow := grown.resolve_left (grounds.stage_ne further)
        exact Or.inr (grounds.growTo further grow).2
      · cases after with
        | unloaded => exact Or.inl rfl
        | parsed parsed => exact absurd isAccepted (unparsed parsed)
        | resolved | verified => simp [Snapshot.stage, Stage.rank] at further

end Descends

namespace Session.Occurs

variable {session : Session} {number : Nat}

/-- In every session the trees of the latest snapshot describe its root documents. -/
theorem describesRoots (occurs : session.Occurs) (number : Nat)
    {entries later : List ChronicleEntry} (parts : session.chronicle = entries ++ later) :
    (latestAfter number entries).DescribesRoots := by
  apply occurs.latestAfter_of_descends number ?_ Descends.describesRoots parts
  intro uri tree found
  contradiction

/-- Until another version is parsed, a manager carries the tree of a document on as long as
anything is loaded of it. -/
theorem carriesOn (occurs : session.Occurs) {past between later : List ChronicleEntry}
    (parts : session.chronicle = past ++ (between ++ later)) {uri : String}
    {tree : ProgressTree} (held : (latestAfter number past).trees[uri]? = some tree)
    (unparsed : ∀ entry ∈ between, ∀ parsed,
      entry.event.accepted? number ≠ some (.parsed parsed)) :
    ∀ entry ∈ between, (entry.latest number).stage = .unloaded ∨
      (entry.latest number).CarriesOn uri tree := by
  have atFirst : (latestAfter number past).HasGrown (latestAfter number past).trees :=
    Or.inr (.refl _ _)
  have grown : ∀ former rest, between = former ++ rest →
      (latestAfter number (past ++ former)).HasGrown (latestAfter number past).trees := by
    apply latestAfter_induction atFirst
    rintro former entry rest rfl grown
    have split : session.chronicle = past ++ former ++ entry :: (rest ++ later) := by
      simp [parts]
    exact (occurs.descends split number).hasGrown (unparsed entry (by simp)) grown
  intro entry mem
  rcases List.append_of_mem mem with ⟨former, rest, rfl⟩
  have once := grown (former ++ [entry]) rest (by simp)
  rw [← List.append_assoc, latestAfter_append_singleton] at once
  exact once.carriesOn held

/-- An update that leads to a version newer than a latest one began when that was the latest
one, or after that. -/
theorem eq_or_mem_of_updateBegan {past between : List ChronicleEntry} {version : Int}
    {origin : Snapshot} (began : UpdateBegan number version origin (past ++ between))
    (newer : (latestAfter number past).version < version) :
    origin = latestAfter number past ∨ ∃ entry ∈ between, origin = entry.latest number := by
  rcases began with ⟨before, begun, rest, parts, _, rfl, kept⟩
  rcases List.append_eq_append_iff.mp parts with ⟨missing, _, rfl⟩ | ⟨missing, rfl, restParts⟩
  · exact Or.inr ⟨begun, by simp, rfl⟩
  · cases missing with
    | nil =>
        rw [List.nil_append] at restParts
        exact Or.inr ⟨begun, by simp [← restParts], rfl⟩
    | cons head tail =>
        obtain ⟨rfl, rfl⟩ := List.cons.inj restParts
        rcases List.eq_nil_or_concat tail with rfl | ⟨former, last, rfl⟩
        · exact Or.inl (latestAfter_append_singleton number before begun).symm
        · have isLast : latestAfter number (before ++ begun :: former.concat last) =
              last.latest number := by
            rw [List.concat_eq_append, ← List.cons_append, ← List.append_assoc,
              latestAfter_append_singleton]
          rw [isLast] at newer ⊢
          rcases kept last (by simp) with same | reached
          · exact Or.inl same.symm
          · omega

end Session.Occurs

/-- Whether a parsed version has the tree of a document, or one that has grown from it; it has
a fresh one when nothing was loaded in the snapshot with which its update began. -/
def Parsed.Inherits (uri : String) (tree : ProgressTree) (origin : Snapshot) (parsed : Parsed) :
    Prop :=
  if origin.stage = .unloaded then
    parsed.trees[uri]? = (parsed.compilation.findRoot? uri).map .fresh
  else
    ∃ grown, parsed.trees[uri]? = some grown ∧ tree.GrowsTo uri origin.results grown

/-- How the tree fares that a manager has of a document after some entries: in the entries
until another version is parsed, and when a newer one is in which the document is the same. -/
structure TreeFares (number : Nat) (uri : String) (tree : ProgressTree)
    (past between later : List ChronicleEntry) : Prop where
  /-- As long as anything is loaded, the tree is there, or has grown. -/
  meanwhile : ∀ entry ∈ between, (entry.latest number).stage = .unloaded ∨
    (entry.latest number).CarriesOn uri tree
  /-- The next version takes over what its update found when it began: the tree, or nothing if
  nothing was loaded then. -/
  next : ∀ accepted rest parsed, later = accepted :: rest →
    accepted.event.accepted? number = some (.parsed parsed) →
    (latestAfter number past).version < parsed.compilation.version →
    (∀ document ∈ (latestAfter number past).compilation.roots, document.uri = uri →
      document ∈ parsed.compilation.roots) →
    ∃ origin, UpdateBegan number parsed.compilation.version origin (past ++ between) ∧
      parsed.Inherits uri tree origin

/-- In every session the tree of a document that does not change is carried on, also by a newer
version, unless the update to that began while nothing was loaded. -/
theorem Session.Occurs.treeFares {session : Session} (occurs : session.Occurs) {number : Nat}
    {past between later : List ChronicleEntry}
    (parts : session.chronicle = past ++ (between ++ later)) {uri : String}
    {tree : ProgressTree} (held : (latestAfter number past).trees[uri]? = some tree)
    (unparsed : ∀ entry ∈ between, ∀ parsed,
      entry.event.accepted? number ≠ some (.parsed parsed)) :
    TreeFares number uri tree past between later where
  meanwhile := occurs.carriesOn parts held unparsed
  next := by
    rintro accepted rest parsed rfl isAccepted newer unchanged
    rw [← List.append_assoc] at parts
    have grounds := occurs.hasGrounds parts
    rw [Event.eq_of_accepted? isAccepted] at grounds
    rcases grounds with ⟨origin, began, isInitial⟩
    refine ⟨origin, began, ?_⟩
    rw [Parsed.Inherits, isInitial]
    split
    · rename_i unloaded
      rw [Parsed.getElem?_initialTrees, ProgressTrees.getElem?_migrate,
        Snapshot.trees_of_unloaded unloaded]
      simp
    · rename_i loaded
      rw [List.append_assoc] at parts
      have carried : origin.CarriesOn uri tree := by
        rcases eq_or_mem_of_updateBegan began newer with rfl | ⟨entry, mem, rfl⟩
        · exact ⟨tree, held, .refl _ _ tree⟩
        · exact (occurs.carriesOn parts held unparsed entry mem).resolve_left loaded
      rcases carried with ⟨grown, found, grows⟩
      rcases occurs.describesRoots number parts uri tree held with
        ⟨document, isRoot, rfl, isDescribed⟩
      rw [← grows.describes_eq] at isDescribed
      have remains := unchanged document isRoot rfl
      exact ⟨grown, Parsed.getElem?_initialTrees_of_describes remains found isDescribed, grows⟩

/-- The version to which an update of a manager begins at an event. -/
def Event.updateBegun? (number : Nat) : Event → Option Int
  | .changed manager (.updateBegun version) => if manager = number then some version else none
  | _ => none

/-- The steps that open, load and verify the sample project and take it to version 3, perhaps
after an update to version 2 that is canceled. -/
def Step.sampleEdits (interrupted : Bool) : List (Step 0) :=
  let plan := .succeeding (some (.sampleModule 1))
  let update (version : Int) (canceled : Bool) : Step 0 :=
    { request := .update 0 { Compilation.sample with version }, canceled, plan }
  Step.sampleUpdates 1 [false] ++ [{ request := .verify 0, plan }] ++
    (if interrupted then [update 2 true] else []) ++ [update 3 false]

namespace Session

/-- The session after these steps. -/
def edited (interrupted : Bool) : Session :=
  (run {} 0 (Step.sampleEdits interrupted)).2

/-- Version 3 takes over the tree of version 1, which was verified. -/
theorem treeFares_sample :
    ∃ (tree grown : ProgressTree) (parsed : Parsed) (results : Table UnitKey UnitResult),
      tree.status = .verified ∧ parsed.compilation.version = 3 ∧
        parsed.trees["a"]? = some grown ∧ tree.GrowsTo "a" results grown := by
  have atFirst : (latestAfter 0 ((edited false).chronicle.take 18)).version = 1 ∧
      (latestAfter 0 ((edited false).chronicle.take 18)).compilation.roots =
        Compilation.sample.roots ∧
      ((latestAfter 0 ((edited false).chronicle.take 18)).trees["a"]?).map
        ProgressTree.status = some .verified := by
    decide +kernel
  have meanwhile : ∀ entry ∈ ((edited false).chronicle.drop 18).take 6,
      (entry.event.accepted? 0).map Snapshot.stage ≠ some .parsed := by
    decide +kernel
  have atNext : ((edited false).chronicle.drop 18)[6]?.bind (fun accepted =>
      (accepted.event.accepted? 0).map fun snapshot =>
        (snapshot.stage, snapshot.version, snapshot.compilation.roots)) =
      some (.parsed, 3, Compilation.sample.roots) := by
    decide +kernel
  have updates : ∀ entry ∈ (edited false).chronicle,
      entry.event.updateBegun? 0 = some 3 → (entry.latest 0).stage = .verified := by
    decide +kernel
  have occurs := occurs_run {} 0 (Step.sampleEdits false)
  change (edited false).Occurs at occurs
  generalize edited false = session at *
  rcases atFirst with ⟨oldVersion, oldRoots, isVerified⟩
  rcases Option.map_eq_some_iff.mp isVerified with ⟨tree, held, verified⟩
  rcases Option.bind_eq_some_iff.mp atNext with ⟨accepted, isEntry, next⟩
  rcases Option.map_eq_some_iff.mp next with ⟨snapshot, isAccepted, parsedNext⟩
  simp only [Prod.mk.injEq] at parsedNext
  cases snapshot with
  | unloaded | resolved | verified => cases parsedNext.1
  | parsed parsed =>
      rcases parsedNext with ⟨_, newVersion, newRoots⟩
      have parts : session.chronicle = session.chronicle.take 18 ++ _ :=
        (List.take_append_drop 18 _).symm
      rw [split_of_getElem? isEntry] at parts
      have fares := occurs.treeFares parts held
        fun entry mem other isOther => meanwhile entry mem (by simp [isOther, Snapshot.stage])
      have newer : (latestAfter 0 (session.chronicle.take 18)).version <
          (Snapshot.parsed parsed).version := by
        rw [oldVersion, newVersion]
        decide
      have unchanged : (latestAfter 0 (session.chronicle.take 18)).compilation.roots =
          (Snapshot.parsed parsed).compilation.roots := oldRoots.trans newRoots.symm
      rcases fares.next accepted _ parsed rfl isAccepted newer
        fun document isRoot _ => unchanged ▸ isRoot with ⟨origin, began, inherits⟩
      change parsed.compilation.version = 3 at newVersion
      rw [newVersion] at began
      rcases began with ⟨before, begun, rest, whole, isBegun, rfl, _⟩
      have mem : begun ∈ session.chronicle := by
        rw [parts, ← List.append_assoc, whole]
        simp
      have loaded := updates begun mem (by rw [isBegun]; rfl)
      rw [Parsed.Inherits, if_neg (by simp [loaded])] at inherits
      rcases inherits with ⟨grown, found, grows⟩
      exact ⟨tree, grown, parsed, _, verified, newVersion, found, grows⟩

/-- After an update to version 2 that was canceled, version 3 finds nothing to take over of the
tree that version 1 had, and begins a new one. -/
theorem lost_progress_sample :
    (acceptances 0 (edited true).chronicle).map (fun snapshot =>
        (snapshot.version, snapshot.stage,
          (snapshot.trees["a"]?).map fun tree => tree.nodes.map ProgressNode.status)) =
      [(1, .unloaded, none), (1, .parsed, some []), (1, .resolved, some [.pending]),
        (1, .verified, some [.pending]), (1, .verified, some [.verified]),
        (2, .unloaded, none), (3, .unloaded, none), (3, .parsed, some []),
        (3, .resolved, some [.pending])] := by
  decide +kernel

end Session

end Proofline
