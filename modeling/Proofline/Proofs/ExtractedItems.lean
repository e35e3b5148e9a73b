import Mathlib.Data.List.Induction
import Proofline.Proofs.Extraction
import Proofline.Proofs.StateNames

/-!
# Extracted items

What an item says can be read off the state it shows: the place in the name of the state, and
for each key the value that was listed for it last. Extraction gives one such item for each state
that is not initial, or it names the first of these states that carries no position.
-/

namespace Proofline

namespace Table

variable {κ α : Type} [Ord κ] [Std.TransOrd κ] [Std.LawfulEqOrd κ] [DecidableEq κ]

/-- The value listed last for a key counts. -/
theorem getElem?_ofListLast (entries : List (κ × α)) (key : κ) :
    (ofListLast entries)[key]? =
      (entries.reverse.find? fun entry => entry.1 = key).map Prod.snd := by
  induction entries using List.reverseRecOn with
  | nil => simp [ofListLast]
  | append_singleton rest entry ih =>
      rw [ofListLast, List.foldl_append, ← ofListLast, List.foldl_cons, List.foldl_nil,
        Std.ExtTreeMap.getElem?_insert, ih, List.reverse_append, List.reverse_singleton,
        List.singleton_append]
      by_cases same : entry.1 = key
      · simp [same]
      · simp [same]

end Table

namespace Binding

/-- Whether a value is that of the last binding with a key. -/
def LastFor (bindings : List Binding) (key value : String) : Prop :=
  ∃ before binding after, bindings = before ++ binding :: after ∧
    binding.name ++ ":" ++ TypeName.display binding.type = key ∧ binding.value = value ∧
    ∀ later ∈ after, later.name ++ ":" ++ TypeName.display later.type ≠ key

theorem lastFor_iff {bindings : List Binding} {key value : String} :
    LastFor bindings key value ↔
      (bindings.reverse.find? fun binding => binding.key = key).map Binding.value =
        some value := by
  simp only [Option.map_eq_some_iff, Table.find?_reverse_eq_some_iff, decide_eq_true_eq,
    Bool.not_eq_true', decide_eq_false_iff_not]
  constructor
  · rintro ⟨before, binding, after, parts, isKey, isValue, others⟩
    exact ⟨binding, ⟨isKey, before, after, parts, others⟩, isValue⟩
  · rintro ⟨binding, ⟨isKey, before, after, parts, others⟩, isValue⟩
    exact ⟨before, binding, after, parts, isKey, isValue, others⟩

end Binding

namespace ModelState

variable {state : ModelState} {depth : Nat}

/-- The value shown for a key is that of the last binding with this key. -/
theorem getElem?_shownValues {key value : String} :
    (state.shownValues depth)[key]? = some value ↔
      Binding.LastFor (state.expanded depth) key value := by
  rw [shownValues, Table.getElem?_ofListLast, ← List.map_reverse, List.find?_map,
    Option.map_map, Binding.lastFor_iff]
  rfl

/-- Some value is shown for a key exactly if some binding has this key. -/
theorem mem_shownValues {key : String} :
    key ∈ state.shownValues depth ↔ ∃ binding ∈ state.expanded depth, binding.key = key := by
  rw [Std.ExtTreeMap.mem_iff_isSome_getElem?, shownValues, Table.getElem?_ofListLast]
  simp

theorem isUnreadable_iff :
    state.IsUnreadable ↔ state.name ≠ "<initial>" ∧ state.position? = none := by
  rw [IsUnreadable, isInitial, decide_eq_false_iff_not]
  rfl

/-- The line a state carries is a number of 64 bits, and not zero. -/
theorem line_of_position? {position : Position} (found : state.position? = some position) :
    position.line ≠ 0 ∧ position.line < 2 ^ 64 := by
  obtain ⟨line, col, _, rfl, nonzero⟩ := StateName.decode?_eq_some_iff.mp found
  exact ⟨nonzero, Nat.mod_lt _ (by decide)⟩

end ModelState

namespace Item

variable {depth : Nat} {state : ModelState}

/-- Whether an item tells the position of a state, with the line counted from zero, and the
values of its bindings down to a depth. -/
structure Tells (depth : Nat) (state : ModelState) (item : Item) : Prop where
  position : ∃ position, state.position? = some position ∧ item.line + 1 = position.line ∧
    position.line < 2 ^ 64 ∧ item.character = position.col
  values : ∀ key value : String,
    item.values[key]? = some value ↔ Binding.LastFor (state.expanded depth) key value

/-- What an item tells of a state determines the item. -/
theorem shows_iff_tells {item : Item} : item.Shows depth state ↔ item.Tells depth state := by
  constructor
  · rintro ⟨position, found, rfl⟩
    obtain ⟨nonzero, fits⟩ := ModelState.line_of_position? found
    have counted : position.line - 1 + 1 = position.line :=
      Nat.sub_add_cancel (Nat.pos_of_ne_zero nonzero)
    exact ⟨⟨position, found, counted, fits, rfl⟩, fun _ _ => ModelState.getElem?_shownValues⟩
  · rintro ⟨⟨position, found, counted, _, isCol⟩, values⟩
    refine ⟨position, found, ?_⟩
    obtain ⟨line, character, shown⟩ := item
    have isLine : line = position.line - 1 := Nat.eq_sub_of_add_eq counted
    have isShown : shown = state.shownValues depth := by
      apply Std.ExtTreeMap.ext_getElem?
      intro key
      apply Option.ext
      intro value
      rw [values, ModelState.getElem?_shownValues]
    have isCharacter : character = position.col := isCol
    rw [ModelState.item, isLine, isShown, isCharacter]

end Item

namespace Model

variable {depth : Nat} {models : List Model}

/-- Whether a state is the first one, going through the models in order, that is to be shown but
carries no position. The number is that of its model, counted from zero. -/
def IsFirstUnreadable (models : List Model) (number : Nat) (state : ModelState) : Prop :=
  ∃ earlier model later before after,
    models = earlier ++ model :: later ∧ earlier.length = number ∧
    model.states = before ++ state :: after ∧ state.IsUnreadable ∧
    (∀ other ∈ earlier, ∀ former ∈ other.states, ¬former.IsUnreadable) ∧
    ∀ former ∈ before, ¬former.IsUnreadable

/-- The first unreadable state is in the first model, or that one has none and it is in one of
the others. -/
theorem isFirstUnreadable_cons_iff {model : Model} {number : Nat} {state : ModelState} :
    IsFirstUnreadable (model :: models) number state ↔
      number = 0 ∧ model.states.find? (fun state => state.IsUnreadable) = some state ∨
        ∃ further, number = further + 1 ∧ (∀ former ∈ model.states, ¬former.IsUnreadable) ∧
          IsFirstUnreadable models further state := by
  simp only [List.find?_eq_some_iff_append, decide_eq_true_eq, Bool.not_eq_true',
    decide_eq_false_iff_not]
  constructor
  · rintro ⟨earlier, holder, later, before, after, parts, rfl, isStates, unreadable, others, first⟩
    cases earlier with
    | nil =>
        obtain ⟨rfl, rfl⟩ := List.cons.inj parts
        exact Or.inl ⟨rfl, unreadable, before, after, isStates, first⟩
    | cons _ earlier =>
        obtain ⟨rfl, rfl⟩ := List.cons.inj parts
        rw [List.forall_mem_cons] at others
        exact Or.inr ⟨earlier.length, rfl, others.1, earlier, holder, later, before, after, rfl,
          rfl, isStates, unreadable, others.2, first⟩
  · rintro (⟨rfl, unreadable, before, after, isStates, first⟩ | ⟨_, rfl, none, earlier, holder,
      later, before, after, rfl, rfl, isStates, unreadable, others, first⟩)
    · exact ⟨[], model, models, before, after, rfl, rfl, isStates, unreadable, by simp, first⟩
    · exact ⟨model :: earlier, holder, later, before, after, rfl, rfl, isStates, unreadable,
        List.forall_mem_cons.mpr ⟨none, others⟩, first⟩

/-- The first unreadable state is found with the number of its model. -/
theorem find?_numberedStates {number : Nat} {state : ModelState} :
    (numberedStates models).find? (fun numbered => numbered.2.IsUnreadable) =
        some (number, state) ↔ IsFirstUnreadable models number state := by
  -- Behind the first model the numbers begin with one, so the induction is about any first number.
  suffices found : ∀ first, ((models.zipIdx first).flatMap fun numbered =>
      numbered.1.states.map fun state => (numbered.2, state)).find?
        (fun numbered => numbered.2.IsUnreadable) = some (number, state) ↔
          ∃ further, number = first + further ∧ IsFirstUnreadable models further state by
    simpa [numberedStates] using found 0
  induction models with
  | nil => simp [IsFirstUnreadable]
  | cons model rest ih =>
      intro first
      rw [List.zipIdx_cons, List.flatMap_cons, List.find?_append, List.find?_map]
      simp only [isFirstUnreadable_cons_iff]
      cases here : model.states.find? (fun state => decide state.IsUnreadable) with
      | none =>
          have readable : ∀ former ∈ model.states, ¬former.IsUnreadable := by simpa using here
          simp only [Function.comp_def, here, Option.map_none, Option.none_or, ih]
          constructor
          · rintro ⟨further, rfl, isFirst⟩
            exact ⟨further + 1, by omega, Or.inr ⟨further, rfl, readable, isFirst⟩⟩
          · rintro ⟨_, rfl, ⟨_, missing⟩ | ⟨further, rfl, _, isFirst⟩⟩
            · contradiction
            · exact ⟨further, by omega, isFirst⟩
      | some unreadable =>
          have isUnreadable : unreadable.IsUnreadable := by simpa using List.find?_some here
          simp only [Function.comp_def, here, Option.map_some, Option.some_or]
          constructor
          · intro same
            obtain ⟨rfl, rfl⟩ := Prod.mk.inj (Option.some.inj same)
            exact ⟨0, rfl, Or.inl ⟨rfl, rfl⟩⟩
          · rintro ⟨_, rfl, ⟨rfl, same⟩ | ⟨_, _, readable, _⟩⟩
            · rw [Option.some.inj same, Nat.add_zero]
            · exact absurd isUnreadable (readable _ (List.mem_of_find?_eq_some here))

theorem shown_eq_filter (states : List ModelState) :
    shown states = states.filter fun state => state.name ≠ "<initial>" := by
  simp only [shown, ModelState.isInitial, ne_eq, decide_not]
  rfl

/-- Extraction gives items exactly if they tell the states that are not initial, one by one. -/
theorem extract_eq_ok_iff {items : List Item} :
    extract models depth false = .ok items ↔
      List.Forall₂ (Item.Tells depth) (shown (allStates models)) items := by
  rw [extract, itemsOf_eq_ok_iff, map_snd_numberedStates]
  have same : (fun state item => Item.Shows depth state item) = Item.Tells depth := by
    funext state item
    exact propext Item.shows_iff_tells
  rw [← same]

/-- Extraction stops exactly at the first state that is to be shown but carries no position. -/
theorem extract_eq_error_iff {stop : ExtractionStop} :
    extract models depth false = .error stop ↔
      ∃ number state, IsFirstUnreadable models number state ∧
        stop = .unreadable number state.name := by
  rw [extract, itemsOf_eq_error_iff]
  simp only [find?_numberedStates]

/-- Extraction stops exactly if some state is to be shown but carries no position. -/
theorem exists_extract_eq_error_iff :
    (∃ stop, extract models depth false = .error stop) ↔
      ∃ model ∈ models, ∃ state ∈ model.states, state.IsUnreadable := by
  have found : (∃ stop, extract models depth false = .error stop) ↔
      ((numberedStates models).find? fun numbered => numbered.2.IsUnreadable).isSome := by
    rw [Option.isSome_iff_exists]
    constructor
    · rintro ⟨stop, stops⟩
      obtain ⟨number, state, isFirst, _⟩ := itemsOf_eq_error_iff.mp stops
      exact ⟨(number, state), isFirst⟩
    · rintro ⟨⟨number, state⟩, isFirst⟩
      exact ⟨_, itemsOf_eq_error_iff.mpr ⟨number, state, isFirst, rfl⟩⟩
  rw [found, isSome_find?_numberedStates_iff]
  constructor
  · rintro ⟨state, mem, unreadable⟩
    obtain ⟨model, isModel, isState⟩ := List.mem_flatMap.mp mem
    exact ⟨model, isModel, state, isState, unreadable⟩
  · rintro ⟨model, isModel, state, isState, unreadable⟩
    exact ⟨state, List.mem_flatMap.mpr ⟨model, isModel, isState⟩, unreadable⟩

/-- Who is canceled is told so unless there is no state to look at. -/
theorem extract_canceled (models : List Model) (depth : Nat) :
    (extract models depth true = .ok [] ∧ ∀ model ∈ models, model.states = []) ∨
      (extract models depth true = .error .canceled ∧ ∃ model ∈ models, model.states ≠ []) := by
  rw [extract]
  cases listed : numberedStates models with
  | nil => exact Or.inl ⟨rfl, numberedStates_eq_nil_iff.mp listed⟩
  | cons state rest =>
      have nonempty : numberedStates models ≠ [] := by simp [listed]
      rw [ne_eq, numberedStates_eq_nil_iff] at nonempty
      push Not at nonempty
      exact Or.inr ⟨rfl, nonempty⟩

/-- Without a cancellation, extraction gives an item for every state that is not initial, in
order, which tells what the state says; or it stops at the first of these states that carries
no position, exactly if there is one. With a cancellation it gives nothing, and says so unless
there is no state at all. -/
theorem extractsStates (models : List Model) (depth : Nat) :
    (∀ items, extract models depth false = .ok items ↔
      List.Forall₂ (Item.Tells depth)
        ((models.flatMap Model.states).filter fun state => state.name ≠ "<initial>") items) ∧
    (∀ stop, extract models depth false = .error stop ↔
      ∃ number state, IsFirstUnreadable models number state ∧
        stop = .unreadable number state.name) ∧
    ((∃ stop, extract models depth false = .error stop) ↔
      ∃ model ∈ models, ∃ state ∈ model.states,
        state.name ≠ "<initial>" ∧ state.position? = none) ∧
    (extract models depth true = .error .canceled ↔ ∃ model ∈ models, model.states ≠ []) ∧
    (extract models depth true = .ok [] ↔ ∀ model ∈ models, model.states = []) := by
  refine ⟨fun items => ?_, fun stop => extract_eq_error_iff, ?_, ?_, ?_⟩
  · rw [extract_eq_ok_iff, shown_eq_filter, allStates]
  · rw [exists_extract_eq_error_iff]
    simp only [ModelState.isUnreadable_iff]
  · rcases extract_canceled models depth with ⟨gives, empty⟩ | ⟨stops, nonempty⟩
    · simpa [gives] using empty
    · simpa [stops] using nonempty
  · rcases extract_canceled models depth with ⟨gives, empty⟩ | ⟨stops, nonempty⟩
    · simpa [gives] using empty
    · simpa [stops] using nonempty

/-- The second model has two states without a position, and the first of them is named; the
initial state of the first model, which has none either, does not matter. -/
theorem extractsStates_sample :
    let models : List Model :=
      [⟨[⟨"<initial>", []⟩, ⟨"a(3,5)", []⟩]⟩, ⟨[⟨"a(7,1)", []⟩, ⟨"b", []⟩, ⟨"a(0,4)", []⟩]⟩]
    extract models 2 false = .error (.unreadable 1 "b") := by
  intro models
  have isFirst : IsFirstUnreadable models 1 ⟨"b", []⟩ :=
    ⟨[⟨[⟨"<initial>", []⟩, ⟨"a(3,5)", []⟩]⟩], _, [], [⟨"a(7,1)", []⟩], [⟨"a(0,4)", []⟩], rfl, rfl,
      rfl, by decide, by decide, by decide⟩
  exact ((extractsStates models 2).2.1 _).mpr ⟨1, _, isFirst, rfl⟩

end Model

end Proofline
