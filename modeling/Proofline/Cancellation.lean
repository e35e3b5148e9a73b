/-!
# Cancellation

A source owns a flag, and its copies and tokens share that flag. A flag that
is raised stays raised. A token that belongs to no source is never canceled.
-/

namespace Proofline

/-- Why an operation stopped without a result. -/
inductive CancelReason where
  | requested
  | parseErrors
deriving DecidableEq, Repr

namespace CancelReason

/-- The name under which a reason is reported. -/
def name : CancelReason → String
  | requested => "requested"
  | parseErrors => "parse-errors"

end CancelReason

/-- A collection of sources and tokens over shared flags. -/
structure Cancellation where
  /-- The flags; true once raised. -/
  flags : List Bool := []
  /-- For each source the number of its flag. -/
  sources : List Nat := []
  /-- For each token the number of its flag, if it belongs to a source. -/
  tokens : List (Option Nat) := []
deriving DecidableEq, Repr, Inhabited

/-- What can be done with sources and tokens. -/
inductive CancellationStep where
  /-- Create a source with a flag of its own. -/
  | newSource
  /-- Create a source that shares the flag of an existing one. -/
  | copySource (source : Nat)
  /-- Create a token of an existing source. -/
  | newToken (source : Nat)
  /-- Create a token that belongs to no source. -/
  | detachedToken
  /-- Raise the flag of a source. -/
  | cancel (source : Nat)
deriving DecidableEq, Repr

namespace Cancellation

/-- Whether the flag with the given number is raised. -/
def raised (state : Cancellation) (flag : Nat) : Bool :=
  state.flags[flag]?.getD false

/-- For each source whether it is canceled. -/
def sourceFlags (state : Cancellation) : List Bool :=
  state.sources.map state.raised

/-- For each token whether it is canceled. -/
def tokenFlags (state : Cancellation) : List Bool :=
  state.tokens.map fun token => token.any state.raised

/-- The state after one step, or nothing when the step names a source that
does not exist. -/
def step? (state : Cancellation) : CancellationStep → Option Cancellation
  | .newSource =>
      some { state with
        flags := state.flags ++ [false]
        sources := state.sources ++ [state.flags.length] }
  | .copySource source =>
      state.sources[source]?.map fun flag =>
        { state with sources := state.sources ++ [flag] }
  | .newToken source =>
      state.sources[source]?.map fun flag =>
        { state with tokens := state.tokens ++ [some flag] }
  | .detachedToken => some { state with tokens := state.tokens ++ [none] }
  | .cancel source =>
      state.sources[source]?.map fun flag =>
        { state with flags := state.flags.set flag true }

/-- A flag that is raised stays raised. -/
theorem raised_of_step? {state next : Cancellation} {step : CancellationStep} {flag : Nat}
    (stepped : state.step? step = some next) (raised : state.raised flag = true) :
    next.raised flag = true := by
  have inside : flag < state.flags.length := by
    rcases Nat.lt_or_ge flag state.flags.length with inside | outside
    · exact inside
    · simp [Cancellation.raised, List.getElem?_eq_none outside] at raised
  cases step with
  | newSource =>
      simp only [step?, Option.some.injEq] at stepped
      subst stepped
      simpa [Cancellation.raised, List.getElem?_append_left inside] using raised
  | detachedToken =>
      simp only [step?, Option.some.injEq] at stepped
      subst stepped
      exact raised
  | copySource source | newToken source =>
      rcases Option.map_eq_some_iff.mp stepped with ⟨shared, _, rfl⟩
      exact raised
  | cancel source =>
      rcases Option.map_eq_some_iff.mp stepped with ⟨shared, _, rfl⟩
      by_cases same : shared = flag
      · simp [Cancellation.raised, same, inside]
      · simpa [Cancellation.raised, List.getElem?_set_ne same] using raised

end Cancellation

end Proofline
