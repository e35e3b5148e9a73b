import Mathlib.Data.List.Forall2
import Proofline.Counterexample.Item

/-!
# Extraction

Extraction shows every state of every model except the initial ones, in order, or it shows
nothing: it stops at the first state that carries no position, and at once when it is
canceled.
-/

namespace Proofline

/-- Whether an item shows a state, expanded to a depth. -/
def Item.Shows (depth : Nat) (state : ModelState) (item : Item) : Prop :=
  ∃ position, state.position? = some position ∧ item = state.item depth position

/-- Whether a state is to be shown, but carries no position. -/
def ModelState.IsUnreadable (state : ModelState) : Prop :=
  state.isInitial = false ∧ state.position? = none

instance (state : ModelState) : Decidable state.IsUnreadable :=
  inferInstanceAs (Decidable (_ ∧ _))

namespace Model

variable {depth : Nat} {models : List Model} {states : List (Nat × ModelState)}

/-- The states that are to be shown: all but the initial ones. -/
def shown (states : List ModelState) : List ModelState :=
  states.filter fun state => !state.isInitial

/-- The states of models, one model after the other. -/
def allStates (models : List Model) : List ModelState :=
  models.flatMap Model.states

theorem map_snd_numberedStates (models : List Model) :
    (numberedStates models).map Prod.snd = allStates models := by
  have numbered (first : Nat) :
      ((models.zipIdx first).flatMap fun numbered =>
        numbered.1.states.map fun state => (numbered.2, state)).map Prod.snd =
          allStates models := by
    induction models generalizing first with
    | nil => rfl
    | cons model rest ih =>
        rw [List.zipIdx_cons, List.flatMap_cons, List.map_append, ih, allStates, allStates,
          List.flatMap_cons, List.map_map]
        exact congrArg (· ++ _) (List.map_id model.states)
  exact numbered 0

theorem numberedStates_eq_nil_iff :
    numberedStates models = [] ↔ ∀ model ∈ models, model.states = [] := by
  rw [← List.map_eq_nil_iff, map_snd_numberedStates, allStates, List.flatMap_eq_nil_iff]

/-- Some state is found to be unreadable exactly if there is such a state. -/
theorem isSome_find?_numberedStates_iff :
    ((numberedStates models).find? fun numbered => numbered.2.IsUnreadable).isSome ↔
      ∃ state ∈ allStates models, state.IsUnreadable := by
  rw [List.find?_isSome, ← map_snd_numberedStates]
  constructor
  · rintro ⟨numbered, mem, unreadable⟩
    exact ⟨numbered.2, List.mem_map_of_mem mem, of_decide_eq_true unreadable⟩
  · rintro ⟨state, mem, unreadable⟩
    rcases List.mem_map.mp mem with ⟨numbered, listed, rfl⟩
    exact ⟨numbered, listed, decide_eq_true unreadable⟩

section Cases

variable {number : Nat} {state : ModelState}

theorem itemsOf_cons_of_initial (initial : state.isInitial = true) :
    itemsOf depth false ((number, state) :: states) = itemsOf depth false states := by
  rw [itemsOf, if_neg (by simp), if_pos initial]

theorem itemsOf_cons_of_unreadable (unreadable : state.IsUnreadable) :
    itemsOf depth false ((number, state) :: states) = .error (.unreadable number state.name) := by
  rw [itemsOf, if_neg (by simp), if_neg (by simp [unreadable.1]), unreadable.2]

theorem itemsOf_cons_of_position (shown : state.isInitial = false) {position : Position}
    (found : state.position? = some position) :
    itemsOf depth false ((number, state) :: states) =
      (itemsOf depth false states).map (state.item depth position :: ·) := by
  rw [itemsOf, if_neg (by simp), if_neg (by simp [shown]), found]

end Cases

/-- Items are extracted exactly if all of them show a state, and all states are shown. -/
theorem itemsOf_eq_ok_iff {items : List Item} :
    itemsOf depth false states = .ok items ↔
      List.Forall₂ (Item.Shows depth) (shown (states.map Prod.snd)) items := by
  induction states generalizing items with
  | nil => simp [itemsOf, shown, eq_comm]
  | cons numbered rest ih =>
      obtain ⟨number, state⟩ := numbered
      rw [List.map_cons, shown]
      cases initial : state.isInitial with
      | true =>
          rw [itemsOf_cons_of_initial initial, List.filter_cons_of_neg (by simp [initial])]
          exact ih
      | false =>
          rw [List.filter_cons_of_pos (by simp [initial]), List.forall₂_cons_left_iff]
          cases found : state.position? with
          | none => simp [itemsOf_cons_of_unreadable ⟨initial, found⟩, Item.Shows, found]
          | some position =>
              rw [itemsOf_cons_of_position initial found]
              constructor
              · intro extracted
                cases others : itemsOf depth false rest with
                | error stop => simp [others, Except.map] at extracted
                | ok items =>
                    rw [others] at extracted
                    exact ⟨_, items, ⟨position, found, rfl⟩, ih.mp others,
                      (Except.ok.inj extracted).symm⟩
              · rintro ⟨_, others, ⟨at', isFound, rfl⟩, shows, rfl⟩
                obtain rfl := Option.some.inj (found.symm.trans isFound)
                rw [ih.mpr shows]
                rfl

/-- Extraction stops at the first state that carries no position. -/
theorem itemsOf_eq_error_iff {stop : ExtractionStop} :
    itemsOf depth false states = .error stop ↔
      ∃ number state, states.find? (fun numbered => numbered.2.IsUnreadable) =
        some (number, state) ∧ stop = .unreadable number state.name := by
  induction states with
  | nil => simp [itemsOf]
  | cons numbered rest ih =>
      obtain ⟨number, state⟩ := numbered
      by_cases unreadable : state.IsUnreadable
      · rw [itemsOf_cons_of_unreadable unreadable,
          List.find?_cons_of_pos (by simpa using unreadable)]
        simp [eq_comm]
      · rw [List.find?_cons_of_neg (by simpa using unreadable), ← ih]
        cases initial : state.isInitial with
        | true => rw [itemsOf_cons_of_initial initial]
        | false =>
            obtain ⟨position, found⟩ := Option.ne_none_iff_exists'.mp
              fun nowhere => unreadable ⟨initial, nowhere⟩
            rw [itemsOf_cons_of_position initial found]
            cases itemsOf depth false rest <;> simp [Except.map]

/-- Nothing is extracted on behalf of who is canceled. -/
theorem itemsOf_canceled (depth : Nat) (states : List (Nat × ModelState)) :
    itemsOf depth true states = .ok [] ∨ itemsOf depth true states = .error .canceled := by
  cases states with
  | nil => exact Or.inl rfl
  | cons state rest => exact Or.inr rfl

end Model

end Proofline
