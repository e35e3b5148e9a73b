import Proofline.Counterexample.Model
import Proofline.Counterexample.TypeName
import Proofline.Table

/-!
# Counterexample items

An item shows one state of a model: where it was captured and what the
variables were. Extraction turns every state but the initial ones into an
item, in order, and fails as a whole when a state has no readable position.
-/

namespace Proofline

/-- One captured state, ready to be shown. -/
structure Item where
  /-- The line, counted from zero. -/
  line : Nat
  /-- The column as recorded in the state. -/
  character : Nat
  /-- Rendered values by name and displayed type. -/
  values : Table String String

/-- Why an extraction produced no items. -/
inductive ExtractionStop where
  /-- It was canceled. -/
  | canceled
  /-- A state of the model with this number carries no position. -/
  | unreadable (model : Nat) (state : String)
deriving DecidableEq, Repr

namespace ExtractionStop

/-- What is said about a state without a position. -/
def complaint : String := "state name carries no (line,col) position"

end ExtractionStop

namespace Binding

/-- The key under which a binding is shown: its name and displayed type. -/
def key (binding : Binding) : String :=
  binding.name ++ ":" ++ TypeName.display binding.type

end Binding

namespace ModelState

/-- The values to show for a state. Of two bindings with one key the later one
is shown. -/
def shownValues (state : ModelState) (depth : Nat) : Table String String :=
  Table.ofListLast ((state.expanded depth).map fun binding => (binding.key, binding.value))

/-- The item of a state captured at `position`. -/
def item (state : ModelState) (depth : Nat) (position : Position) : Item where
  line := position.line - 1
  character := position.col
  values := state.shownValues depth

end ModelState

namespace Model

/-- All states of `models` in order, each with the number of its model. -/
def numberedStates (models : List Model) : List (Nat × ModelState) :=
  models.zipIdx.flatMap fun (model, number) => model.states.map fun state => (number, state)

/-- The items of numbered states. Cancellation is looked at before each
state. -/
def itemsOf (depth : Nat) (canceled : Bool) :
    List (Nat × ModelState) → Except ExtractionStop (List Item)
  | [] => .ok []
  | (number, state) :: rest =>
      if canceled then
        .error .canceled
      else if state.isInitial then
        itemsOf depth canceled rest
      else
        match state.position? with
        | none => .error (.unreadable number state.name)
        | some position => (itemsOf depth canceled rest).map (state.item depth position :: ·)

/-- One item for every state of `models` that is not initial, expanded to
`depth`. -/
def extract (models : List Model) (depth : Nat) (canceled : Bool) :
    Except ExtractionStop (List Item) :=
  itemsOf depth canceled (numberedStates models)

end Model

end Proofline
