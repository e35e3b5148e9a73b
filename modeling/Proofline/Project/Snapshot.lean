import Proofline.Counterexample.Model
import Proofline.Diagnostic.Journal
import Proofline.Project.Declaration
import Proofline.Project.ProgressTree

/-!
# Snapshots

A snapshot is what is known about one version of a project at one stage: it
was just opened, parsed, resolved, or verified in part or in full. A later
stage holds the earlier one it was built from. Snapshots never change;
recording the result of a unit gives another snapshot.
-/

namespace Proofline

/-- The stages of a version, in ascending order. -/
inductive Stage where
  | unloaded
  | parsed
  | resolved
  | verified
deriving DecidableEq, Repr, Inhabited

namespace Stage

/-- All stages, in ascending order. -/
def all : List Stage := [unloaded, parsed, resolved, verified]

/-- The place of a stage in the ascending order. -/
def rank : Stage → Nat
  | unloaded => 0
  | parsed => 1
  | resolved => 2
  | verified => 3

/-- The name under which a stage is written. -/
def name : Stage → String
  | unloaded => "unloaded"
  | parsed => "parsed"
  | resolved => "resolved"
  | verified => "verified"

theorem rank_inj {first second : Stage} : first.rank = second.rank ↔ first = second := by
  cases first <;> cases second <;> simp [rank]

end Stage

/-- A parsed program, with the number of the journal its later stages report
to. -/
structure Program where
  module : Option Declaration
  journal : Nat

/-- A version just opened: nothing parsed, every table empty. -/
structure Unloaded where
  compilation : Compilation
  symbols : SymbolTable := {}
  signatures : SignatureTable := {}
deriving Inhabited

/-- A parsed version. -/
structure Parsed where
  compilation : Compilation
  program : Program
  /-- The diagnostics of parsing. -/
  diagnostics : DiagnosticsByUri
  trees : ProgressTrees

/-- A resolved version. -/
structure Resolved where
  parsed : Parsed
  /-- The diagnostics of parsing and resolution. -/
  diagnostics : DiagnosticsByUri
  symbols : SymbolTable
  signatures : SignatureTable
  ghostDiagnostics : List Diagnostic
  /-- The declarations to verify. -/
  units : List Declaration
  trees : ProgressTrees

/-- What identifies a verification unit within a version. -/
structure UnitKey where
  uri : String
  range : Range
deriving DecidableEq, Repr, Inhabited

namespace UnitKey

/-- Keys are compared by document, and within a document by range. -/
instance : Ord UnitKey where
  compare := compareLex (compareOn uri) (compareOn range)

instance : Std.TransOrd UnitKey :=
  inferInstanceAs (Std.TransCmp (compareLex (compareOn uri) (compareOn range)))

instance : Std.LawfulEqOrd UnitKey where
  eq_of_compare {a b} same := by
    cases a
    cases b
    have parts := Ordering.then_eq_eq.mp same
    simp only [compareOn] at parts
    rw [Std.LawfulEqOrd.eq_of_compare parts.1, Std.LawfulEqOrd.eq_of_compare parts.2]

end UnitKey

/-- What verifying a unit yields. -/
structure Outcome where
  status : ProgressStatus := .verified
  /-- One model per counterexample. -/
  models : List Model := []
  diagnostics : List Diagnostic := []
deriving Inhabited

/-- The recorded result of a unit. -/
structure UnitResult where
  name : String
  status : ProgressStatus
  models : List Model

/-- A version verified in part or in full. -/
structure Verified where
  resolved : Resolved
  trees : ProgressTrees
  results : Table UnitKey UnitResult := ∅
  /-- The models of all results, in the order in which they were recorded. -/
  counterexamples : List Model := []
  /-- The diagnostics of all outcomes. -/
  verifierDiagnostics : DiagnosticsByUri := ∅
  /-- The number of units with a result. -/
  completed : Nat := 0

/-- A version at one of its stages. -/
inductive Snapshot where
  | unloaded (snapshot : Unloaded)
  | parsed (snapshot : Parsed)
  | resolved (snapshot : Resolved)
  | verified (snapshot : Verified)

instance : Inhabited Snapshot := ⟨.unloaded default⟩

namespace Declaration

/-- The key of a declaration as a verification unit. -/
def key (unit : Declaration) : UnitKey where
  uri := unit.uri
  range := unit.range

end Declaration

namespace Parsed

/-- The trees of a parsed version: the one carried over for a root document,
or a fresh one. -/
def initialTrees (compilation : Compilation) (migrated : ProgressTrees) : ProgressTrees :=
  Table.ofListFirst <| compilation.roots.map fun document =>
    (document.uri, (migrated[document.uri]?).getD (.fresh document))

/-- Whether some diagnostic of parsing is an error. -/
def hasErrors (parsed : Parsed) : Bool :=
  parsed.diagnostics.toList.any fun entry => entry.2.any Diagnostic.isError

end Parsed

namespace Resolved

/-- The compilation of a resolved version. -/
def compilation (resolved : Resolved) : Compilation :=
  resolved.parsed.compilation

/-- Whether the tree of a document was carried over from an earlier version
and is therefore left as it is. Trees are told apart by what they hold: one
begun anew counts as carried over if it holds just what a migrated one does.
An update gives the same migrated trees to parsing and to resolution, and then
the trees that count are those that parsing took from them. -/
def isAdopted (parsed : Parsed) (migrated : ProgressTrees) (uri : String) : Bool :=
  match migrated[uri]?, parsed.trees[uri]? with
  | some carried, some tree => carried = tree
  | _, _ => false

/-- Add a pending node for `unit` to the tree of its document, unless that
tree was carried over or has a node for the range. -/
def addPending (parsed : Parsed) (migrated trees : ProgressTrees) (unit : Declaration) :
    ProgressTrees :=
  match trees[unit.uri]? with
  | none => trees
  | some tree =>
      if isAdopted parsed migrated unit.uri || (tree.find? unit.range).isSome then
        trees
      else
        trees.insert unit.uri (tree.withNode unit.name unit.range .pending)

/-- The trees of a resolved version: those of the parsed version, with pending
nodes for the units. -/
def pendingTrees (parsed : Parsed) (migrated : ProgressTrees) (units : List Declaration) :
    ProgressTrees :=
  units.foldl (addPending parsed migrated) parsed.trees

/-- The diagnostics to show: those of parsing and resolution, then those about
ghost code. -/
def shownDiagnostics (resolved : Resolved) : DiagnosticsByUri :=
  resolved.ghostDiagnostics.foldl
    (fun table diagnostic =>
      table.file (diagnostic.filedUnder resolved.compilation.project) diagnostic)
    resolved.diagnostics

end Resolved

namespace Verified

/-- The compilation of a verified version. -/
def compilation (verified : Verified) : Compilation :=
  verified.resolved.compilation

/-- The version with no unit verified yet. -/
def start (resolved : Resolved) : Verified where
  resolved
  trees := resolved.trees

/-- The progress trees with the status of `unit` recorded, where its document
has a tree. -/
def recordStatus (trees : ProgressTrees) (unit : Declaration) (status : ProgressStatus) :
    ProgressTrees :=
  match trees[unit.uri]? with
  | none => trees
  | some tree => trees.insert unit.uri (tree.withNode unit.name unit.range status)

/-- The version with `outcome` recorded for `unit`. -/
def withResult (verified : Verified) (unit : Declaration) (outcome : Outcome) : Verified :=
  { verified with
    trees := recordStatus verified.trees unit outcome.status
    results := verified.results.insert unit.key
      { name := unit.name, status := outcome.status, models := outcome.models }
    counterexamples := verified.counterexamples ++ outcome.models
    verifierDiagnostics := outcome.diagnostics.foldl
      (fun table diagnostic => table.file (diagnostic.filedUnder unit.uri) diagnostic)
      verified.verifierDiagnostics
    completed :=
      if unit.key ∈ verified.results then verified.completed else verified.completed + 1 }

/-- Whether as many units have a result as there are units. -/
def complete (verified : Verified) : Bool :=
  verified.resolved.units.length ≤ verified.completed

/-- The results of each document, ordered by range. -/
def resultsByUri (verified : Verified) : Table String (List (Range × UnitResult)) :=
  verified.results.toList.foldl
    (fun table entry => table.file entry.1.uri (entry.1.range, entry.2)) ∅

/-- The diagnostics to show: those of the resolved version, then those of the
recorded outcomes. -/
def shownDiagnostics (verified : Verified) : DiagnosticsByUri :=
  verified.verifierDiagnostics.toList.foldl
    (fun table entry => table.insert entry.1 (table.getD entry.1 [] ++ entry.2))
    verified.resolved.shownDiagnostics

end Verified

namespace Snapshot

/-- The stage of a snapshot. -/
def stage : Snapshot → Stage
  | unloaded _ => .unloaded
  | parsed _ => .parsed
  | resolved _ => .resolved
  | verified _ => .verified

/-- The compilation of a snapshot. -/
def compilation : Snapshot → Compilation
  | unloaded snapshot => snapshot.compilation
  | parsed snapshot => snapshot.compilation
  | resolved snapshot => snapshot.compilation
  | verified snapshot => snapshot.compilation

/-- The version of a snapshot. -/
def version (snapshot : Snapshot) : Int :=
  snapshot.compilation.version

/-- The progress trees of a snapshot. -/
def trees : Snapshot → ProgressTrees
  | unloaded _ => ∅
  | parsed snapshot => snapshot.trees
  | resolved snapshot => snapshot.trees
  | verified snapshot => snapshot.trees

/-- The diagnostics a snapshot has to show, by document. -/
def ownDiagnostics : Snapshot → DiagnosticsByUri
  | unloaded _ => ∅
  | parsed snapshot => snapshot.diagnostics
  | resolved snapshot => snapshot.shownDiagnostics
  | verified snapshot => snapshot.shownDiagnostics

/-- The diagnostics to show for a snapshot, by document. Every root document
has an entry, even if it is empty. -/
def diagnostics (snapshot : Snapshot) : DiagnosticsByUri :=
  snapshot.compilation.roots.foldl (fun table document => table.insertIfNew document.uri [])
    snapshot.ownDiagnostics

theorem mem_foldl_insertIfNew (roots : List Document) (table : DiagnosticsByUri)
    (uri : String) :
    uri ∈ roots.foldl (fun table document => table.insertIfNew document.uri []) table ↔
      uri ∈ table ∨ ∃ document ∈ roots, document.uri = uri := by
  induction roots generalizing table with
  | nil => simp
  | cons document rest ih =>
      rw [List.foldl_cons, ih]
      simp only [Std.ExtTreeMap.mem_insertIfNew, Std.LawfulEqOrd.compare_eq_iff_eq,
        List.mem_cons, exists_eq_or_imp]
      grind

/-- The documents a snapshot shows something for: those with diagnostics of
its own, and its root documents. -/
theorem mem_diagnostics (snapshot : Snapshot) (uri : String) :
    uri ∈ snapshot.diagnostics ↔
      uri ∈ snapshot.ownDiagnostics ∨ uri ∈ snapshot.compilation.rootUris := by
  simp [diagnostics, mem_foldl_insertIfNew, Compilation.rootUris]

/-- Whether a snapshot is of an older version than another one, or of an
earlier stage of the same version. -/
def Precedes (snapshot other : Snapshot) : Prop :=
  snapshot.version < other.version ∨
    snapshot.version = other.version ∧ snapshot.stage.rank < other.stage.rank

instance (snapshot other : Snapshot) : Decidable (snapshot.Precedes other) :=
  inferInstanceAs (Decidable (_ ∨ _))

theorem not_precedes_self (snapshot : Snapshot) : ¬snapshot.Precedes snapshot := by
  simp [Precedes]

theorem Precedes.trans {first second third : Snapshot} (before : first.Precedes second)
    (after : second.Precedes third) : first.Precedes third := by
  unfold Precedes at *
  omega

/-- Of two snapshots one precedes the other, unless they agree in version and
stage. -/
theorem not_precedes_iff (snapshot other : Snapshot) :
    ¬snapshot.Precedes other ↔
      other.Precedes snapshot ∨
        snapshot.version = other.version ∧ snapshot.stage = other.stage := by
  unfold Precedes
  rw [← Stage.rank_inj]
  omega

end Snapshot

end Proofline
