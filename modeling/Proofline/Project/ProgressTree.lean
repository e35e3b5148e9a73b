import Proofline.Log
import Proofline.Project.Compilation
import Proofline.Table

/-!
# Progress trees

A progress tree records for one document which ranges are verified, failed or
still pending, ordered by range. It describes the text it was made for, which
it identifies by the hash and the number of lines. A tree is carried over to a
new version of the project as a whole or not at all.
-/

namespace Proofline

/-- How far the verification of a range has come. -/
inductive ProgressStatus where
  | pending
  | verified
  | failed
  | inconclusive
  | internalError
deriving DecidableEq, Repr, Inhabited

namespace ProgressStatus

/-- All statuses. -/
def all : List ProgressStatus := [pending, verified, failed, inconclusive, internalError]

/-- The name under which a status is written. -/
def name : ProgressStatus → String
  | pending => "pending"
  | verified => "verified"
  | failed => "failed"
  | inconclusive => "inconclusive"
  | internalError => "internal-error"

/-- The status with the given name. -/
def ofName? (text : String) : Option ProgressStatus :=
  all.find? fun status => status.name = text

@[simp]
theorem ofName?_name (status : ProgressStatus) : ofName? status.name = some status := by
  cases status <;> decide

/-- How bad a status is, from verified to internal error. -/
def badness : ProgressStatus → Nat
  | verified => 0
  | pending => 1
  | inconclusive => 2
  | failed => 3
  | internalError => 4

/-- The worse of two statuses. -/
def worse (first second : ProgressStatus) : ProgressStatus :=
  if first.badness < second.badness then second else first

end ProgressStatus

/-- The recorded progress of one range. -/
structure ProgressNode where
  name : String
  range : Range
  status : ProgressStatus
deriving DecidableEq, Repr, Inhabited

/-- The recorded progress of one document. -/
structure ProgressTree where
  uri : String
  /-- The hash of the text. -/
  hash : UInt64
  /-- The number of lines of the text. -/
  lines : Nat
  /-- The nodes, ordered by range. -/
  nodes : List ProgressNode := []
deriving DecidableEq, Repr, Inhabited

/-- Progress trees by document. -/
abbrev ProgressTrees := Table String ProgressTree

namespace ProgressNode

/-- Put `node` in its place in an ordered list, replacing a node with the same
range. -/
def place (node : ProgressNode) : List ProgressNode → List ProgressNode
  | [] => [node]
  | first :: rest =>
      match compare first.range node.range with
      | .lt => first :: node.place rest
      | .eq => node :: rest
      | .gt => node :: first :: rest

theorem find?_place_self (node : ProgressNode) (nodes : List ProgressNode) :
    (node.place nodes).find? (fun placed => placed.range = node.range) = some node := by
  induction nodes with
  | nil => simp [place]
  | cons first rest ih =>
      unfold place
      split
      · rename_i before
        have ne : first.range ≠ node.range := by
          intro same
          simp [same, Std.ReflCmp.compare_self] at before
        simp [ne, ih]
      · simp
      · simp

theorem find?_place_of_ne (node : ProgressNode) (nodes : List ProgressNode) {range : Range}
    (ne : node.range ≠ range) :
    (node.place nodes).find? (fun placed => placed.range = range) =
      nodes.find? fun placed => placed.range = range := by
  induction nodes with
  | nil => simp [place, ne]
  | cons first rest ih =>
      unfold place
      split
      · simp [List.find?_cons, ih]
      · rename_i same
        have same := Std.LawfulEqOrd.eq_of_compare same
        simp [ne, same]
      · simp [List.find?_cons, ne]

end ProgressNode

namespace ProgressTree

/-- The tree of a document of which nothing is recorded. -/
def fresh (document : Document) : ProgressTree where
  uri := document.uri
  hash := document.hash
  lines := document.lineCount

/-- The node with exactly the given range. -/
def find? (tree : ProgressTree) (range : Range) : Option ProgressNode :=
  tree.nodes.find? fun node => node.range = range

/-- The worst status of all nodes; an empty tree is pending. -/
def status (tree : ProgressTree) : ProgressStatus :=
  if tree.nodes.isEmpty then
    .pending
  else
    tree.nodes.foldl (fun worst node => worst.worse node.status) .verified

/-- Whether the tree still describes `document`. -/
def describes (tree : ProgressTree) (document : Document) : Bool :=
  document.uri = tree.uri && document.hash = tree.hash && document.lineCount = tree.lines

theorem describes_iff (tree : ProgressTree) (document : Document) :
    tree.describes document = true ↔
      document.uri = tree.uri ∧ document.hash = tree.hash ∧ document.lineCount = tree.lines := by
  simp [describes, and_assoc]

@[simp]
theorem describes_fresh (document : Document) : (fresh document).describes document = true :=
  (describes_iff _ _).mpr ⟨rfl, rfl, rfl⟩

/-- The tree with the given progress recorded for a range. -/
def withNode (tree : ProgressTree) (name : String) (range : Range) (status : ProgressStatus) :
    ProgressTree :=
  { tree with nodes := ProgressNode.place { name, range, status } tree.nodes }

@[simp]
theorem find?_withNode_self (tree : ProgressTree) (name : String) (range : Range)
    (status : ProgressStatus) :
    (tree.withNode name range status).find? range = some { name, range, status } :=
  ProgressNode.find?_place_self { name, range, status } tree.nodes

theorem find?_withNode_of_ne (tree : ProgressTree) (name : String) {range other : Range}
    (ne : range ≠ other) (status : ProgressStatus) :
    (tree.withNode name range status).find? other = tree.find? other :=
  ProgressNode.find?_place_of_ne { name, range, status } tree.nodes ne

end ProgressTree

namespace ProgressTrees

/-- The tree of a previous version for `document`, if it still describes
it. -/
def carriedOver? (previous : ProgressTrees) (document : Document) : Option ProgressTree :=
  (previous[document.uri]?).filter fun tree => tree.describes document

/-- The trees of `previous` that still describe a root document of
`compilation`. -/
def migrate (previous : ProgressTrees) (compilation : Compilation) : ProgressTrees :=
  Table.ofListFirst <| compilation.roots.filterMap fun document =>
    (carriedOver? previous document).map fun tree => (document.uri, tree)

/-- For each root document whose tree is not carried over a message that says
so. -/
def dropped (previous : ProgressTrees) (compilation : Compilation) : List String :=
  compilation.roots.filterMap fun document =>
    match previous[document.uri]? with
    | none => none
    | some tree =>
        if tree.describes document then
          none
        else
          some ("verification tree for " ++ document.uri ++ " dropped: document changed")

end ProgressTrees

end Proofline
