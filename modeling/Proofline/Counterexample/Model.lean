import Proofline.Counterexample.StateName

/-!
# Models

A model is a counterexample trace: a list of captured program states, each of
which binds variables to rendered values. A structured value carries its
fields as nested bindings. Expanding a state lists its bindings down to a
nesting depth, breadth first.
-/

namespace Proofline

/-- A variable with the rendering of its type and value, and the fields of a
structured value. -/
structure Binding where
  name : String
  type : String
  value : String
  fields : List Binding

/-- A captured program state. -/
structure ModelState where
  name : String
  bindings : List Binding

/-- A counterexample trace. -/
structure Model where
  states : List ModelState

namespace Binding

mutual

/-- The number of bindings in a binding, itself included. -/
def weight : Binding → Nat
  | ⟨_, _, _, fields⟩ => weights fields + 1

/-- The number of bindings in a list of bindings. -/
def weights : List Binding → Nat
  | [] => 0
  | binding :: rest => binding.weight + weights rest

end

theorem weight_eq (binding : Binding) : binding.weight = weights binding.fields + 1 := by
  cases binding
  rw [weight]

theorem weights_append (first second : List Binding) :
    weights (first ++ second) = weights first + weights second := by
  induction first with
  | nil => simp [weights]
  | cons binding rest ih => simp [weights, ih, Nat.add_assoc]

/-- The fields to expand of a binding at nesting level `level`: none from the
last level on. -/
def fieldsWithin (depth level : Nat) (binding : Binding) : List Binding :=
  if level < depth then binding.fields else []

theorem weights_fieldsWithin_lt (depth level : Nat) (binding : Binding) :
    weights (binding.fieldsWithin depth level) < binding.weight := by
  rw [weight_eq, fieldsWithin]
  split
  · exact Nat.lt_succ_self _
  · simp [weights]

/-- List the waiting bindings in order, each with its nesting level. The
fields of a binding wait behind all that wait already. -/
def expandWaiting (depth : Nat) : List (Binding × Nat) → List Binding
  | [] => []
  | (binding, level) :: waiting =>
      let fields := (binding.fieldsWithin depth level).map fun field => (field, level + 1)
      binding :: expandWaiting depth (waiting ++ fields)
termination_by waiting => weights (waiting.map Prod.fst)
decreasing_by
  have lighter := weights_fieldsWithin_lt depth level binding
  simp only [List.map_append, List.map_map, Function.comp_def, List.map_id_fun', id_eq,
    List.map_cons, weights_append, weights]
  omega

end Binding

namespace ModelState

/-- Whether this is the state every trace starts in. -/
def isInitial (state : ModelState) : Bool :=
  state.name = StateName.initial

/-- The position the name of the state carries. -/
def position? (state : ModelState) : Option Position :=
  StateName.decode? state.name

/-- The bindings nested at most `depth` levels deep, breadth first. Depth zero
yields the bindings of the state alone. -/
def expanded (state : ModelState) (depth : Nat) : List Binding :=
  Binding.expandWaiting depth (state.bindings.map fun binding => (binding, 0))

@[simp]
theorem expanded_zero (state : ModelState) : state.expanded 0 = state.bindings := by
  unfold expanded
  induction state.bindings with
  | nil => simp [Binding.expandWaiting]
  | cons binding rest ih => simp [Binding.expandWaiting, Binding.fieldsWithin, ih]

end ModelState

end Proofline
