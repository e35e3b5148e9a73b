import Mathlib.Logic.Function.Basic
import Proofline.Diagnostic.Network

/-!
# Forests of labelling reporters

Labelling reporters that wrap each other over one counting reporter form a forest with the
counting reporter as its base. A report that enters anywhere is escalated there and nowhere
else, is counted by every reporter on its way, and reaches the base once, with the labels of
its way in front of its message.
-/

namespace Proofline

/-- A reporter counts under the options it is subject to. -/
theorem Reporter.options_tally (reporter : Reporter) :
    reporter.tally.options = reporter.options := by
  cases reporter <;> rfl

namespace Network

/-- The labelling reporters of a forest in the order in which they were built: which reporter
each of them wraps, and its label. The base has number zero and they are numbered from one. -/
abbrev Wrappings := List (Nat × String)

/-- The network of a base and the labelling reporters built over it one after the other. A
reporter that wraps none of those before it cannot be built. -/
def forest? (base : Tally) (wrappings : Wrappings) : Option Network :=
  wrappings.foldlM (fun network wrapping =>
    network.push? (.labelling {} wrapping.1 wrapping.2)) { reporters := [.counting base] }

/-- The labels that are put in front of a message on its way from one reporter of a forest to
another, those put there last coming first. Nothing if the way does not lead there. -/
def labelsTo? (wrappings : Wrappings) (target : Nat) : Nat → Option (List String)
  | 0 => if target = 0 then some [] else none
  | number + 1 =>
      if target = number + 1 then
        some []
      else
        match wrappings[number]? with
        | none => none
        | some (wrapped, label) =>
            if wrapped ≤ number then
              (labelsTo? wrappings target wrapped).map fun labels => labels ++ [label]
            else
              none

/-- Report diagnostics to the reporters with the given numbers, one after the other: the network
they lead to, and the answers. -/
def reportAll (network : Network) : List (Nat × Diagnostic) → Network × List Bool
  | [] => (network, [])
  | (number, diagnostic) :: rest =>
      let (next, answer) := network.report number (.full diagnostic)
      let (after, answers) := next.reportAll rest
      (after, answer :: answers)

section Ways

variable {wrappings : Wrappings}

@[simp]
theorem labelsTo?_self (number : Nat) : labelsTo? wrappings number number = some [] := by
  cases number <;> simp [labelsTo?]

/-- The way goes on with the reporter that is wrapped. -/
theorem labelsTo?_of_wraps {number wrapped target : Nat} {label : String}
    (wraps : wrappings[number]? = some (wrapped, label)) (earlier : wrapped ≤ number)
    (ne : target ≠ number + 1) :
    labelsTo? wrappings target (number + 1) =
      (labelsTo? wrappings target wrapped).map fun labels => labels ++ [label] := by
  rw [labelsTo?, if_neg ne, wraps]
  simp only [if_pos earlier]

/-- The way leads to smaller numbers. -/
theorem labelsTo?_eq_none_of_lt {target number : Nat} (less : number < target) :
    labelsTo? wrappings target number = none := by
  fun_induction labelsTo? wrappings target number with
  | case1 | case3 => omega
  | case2 | case4 | case6 => rfl
  | case5 number _ wrapped label _ earlier ih => simp [ih (by omega)]

end Ways

/-- Whether some reporters are a forest with the given tallies. Its base and its labelling
reporters are subject to the same options, and those that label count whatever they are
handed. -/
structure IsForest (options : Options) (wrappings : Wrappings) (tallies : Nat → Tally)
    (reporters : List Reporter) : Prop where
  length : reporters.length = wrappings.length + 1
  base : reporters[0]? = some (.counting (tallies 0))
  wraps : ∀ {number wrapped : Nat} {label : String},
    wrappings[number]? = some (wrapped, label) → wrapped ≤ number ∧
      reporters[number + 1]? = some (.labelling (tallies (number + 1)) wrapped label)
  options : ∀ number, (tallies number).options = options
  countsAll : ∀ number, (tallies (number + 1)).errorsOnly = false

namespace IsForest

variable {options : Options} {wrappings : Wrappings} {tallies : Nat → Tally}
  {reporters : List Reporter}

/-- The tallies of a forest stay subject to its options when one of them is replaced. -/
theorem options_update (forest : IsForest options wrappings tallies reporters) (number : Nat)
    {tally : Tally} (sameOptions : tally.options = options) :
    ∀ other, (Function.update tallies number tally other).options = options :=
  (Function.forall_update_iff tallies fun _ tally => tally.options = options).mpr
    ⟨sameOptions, fun other _ => forest.options other⟩

/-- The base of a forest may have another tally. -/
theorem set_base (forest : IsForest options wrappings tallies reporters) {tally : Tally}
    (sameOptions : tally.options = options) :
    IsForest options wrappings (Function.update tallies 0 tally)
      (reporters.set 0 (.counting tally)) where
  length := by rw [List.length_set, forest.length]
  base := by
    rw [Function.update_self, List.getElem?_set_self (by rw [forest.length]; omega)]
  wraps isWrapping := by
    obtain ⟨earlier, isLabelling⟩ := forest.wraps isWrapping
    rw [List.getElem?_set_ne (by omega), Function.update_of_ne (by omega)]
    exact ⟨earlier, isLabelling⟩
  options := forest.options_update 0 sameOptions
  countsAll number := by
    rw [Function.update_of_ne (by omega), forest.countsAll]

/-- A labelling reporter of a forest may have another tally. -/
theorem set_labelling (forest : IsForest options wrappings tallies reporters)
    {number wrapped : Nat} {label : String} (wraps : wrappings[number]? = some (wrapped, label))
    {tally : Tally} (sameOptions : tally.options = options)
    (countsAll : tally.errorsOnly = false) :
    IsForest options wrappings (Function.update tallies (number + 1) tally)
      (reporters.set (number + 1) (.labelling tally wrapped label)) where
  length := by rw [List.length_set, forest.length]
  base := by
    rw [Function.update_of_ne (by omega), List.getElem?_set_ne (by omega), forest.base]
  wraps {other} _ _ isWrapping := by
    obtain ⟨earlier, isLabelling⟩ := forest.wraps isWrapping
    refine ⟨earlier, ?_⟩
    by_cases same : number = other
    · subst same
      obtain ⟨rfl, rfl⟩ := Prod.mk.inj (Option.some.inj (wraps.symm.trans isWrapping))
      have inside := (List.getElem?_eq_some_iff.mp isLabelling).1
      rw [Function.update_self, List.getElem?_set_self inside]
    · rw [List.getElem?_set_ne (by omega), Function.update_of_ne (by omega), isLabelling]
  options := forest.options_update (number + 1) sameOptions
  countsAll other := by
    by_cases same : other = number
    · rw [same, Function.update_self, countsAll]
    · rw [Function.update_of_ne (by omega), forest.countsAll]

/-- A forest grows by a reporter that wraps one of its reporters. -/
theorem push (forest : IsForest options wrappings tallies reporters) {wrapped : Nat}
    (inside : wrapped ≤ wrappings.length) (label : String) :
    IsForest options (wrappings ++ [(wrapped, label)])
      (Function.update tallies (wrappings.length + 1) { options })
      (reporters ++ [.labelling { options } wrapped label]) where
  length := by simp [forest.length]
  base := by
    rw [Function.update_of_ne (by omega), List.getElem?_append_left (by rw [forest.length]; omega),
      forest.base]
  wraps {number other} otherLabel isWrapping := by
    rcases Nat.lt_or_ge number wrappings.length with older | newest
    · rw [List.getElem?_append_left older] at isWrapping
      obtain ⟨earlier, isLabelling⟩ := forest.wraps isWrapping
      rw [Function.update_of_ne (by omega),
        List.getElem?_append_left (by rw [forest.length]; omega)]
      exact ⟨earlier, isLabelling⟩
    · have same : number = wrappings.length := by
        have := (List.getElem?_eq_some_iff.mp isWrapping).1
        simp at this
        omega
      subst same
      obtain ⟨rfl, rfl⟩ : wrapped = other ∧ label = otherLabel := by simpa using isWrapping
      rw [Function.update_self, ← forest.length]
      exact ⟨inside, List.getElem?_concat_length ..⟩
  options := forest.options_update (wrappings.length + 1) rfl
  countsAll number := by
    by_cases same : number = wrappings.length
    · rw [same, Function.update_self]
    · rw [Function.update_of_ne (by omega), forest.countsAll]

theorem tally_eq (forest : IsForest options wrappings tallies reporters) {number : Nat}
    {reporter : Reporter} (found : reporters[number]? = some reporter) :
    reporter.tally = tallies number := by
  cases number with
  | zero =>
      obtain rfl := Option.some.inj (forest.base.symm.trans found)
      rfl
  | succ number =>
      have inside := (List.getElem?_eq_some_iff.mp found).1
      rw [forest.length] at inside
      have isLabelling :=
        (forest.wraps (List.getElem?_eq_getElem (Nat.lt_of_succ_lt_succ inside))).2
      obtain rfl := Option.some.inj (isLabelling.symm.trans found)
      rfl

/-- All reporters of a forest are subject to the same options. -/
theorem options_eq (forest : IsForest options wrappings tallies reporters) {number : Nat}
    {reporter : Reporter} (found : reporters[number]? = some reporter) :
    reporter.options = options := by
  rw [← Reporter.options_tally, forest.tally_eq found, forest.options]

end IsForest

/-- The tally of a reporter of a forest after a diagnostic was handed to one of them. It accepts
what is handed on to it, if the way leads there. -/
def tallyAfter (wrappings : Wrappings) (tallies : Nat → Tally) (number : Nat)
    (diagnostic : Diagnostic) (target : Nat) : Tally :=
  match labelsTo? wrappings target number with
  | none => tallies target
  | some labels =>
      ((tallies target).accept (labelled (String.join labels) diagnostic)).1

theorem labelled_labelled (outer inner : String) (diagnostic : Diagnostic) :
    labelled outer (labelled inner diagnostic) = labelled (outer ++ inner) diagnostic := by
  simp [labelled, String.append_assoc]

@[simp]
theorem labelled_empty (diagnostic : Diagnostic) : labelled "" diagnostic = diagnostic := by
  simp [labelled]

/-- The reporter that is handed a diagnostic accepts it as it is, and those it hands it on to
accept it with its label. -/
theorem tallyAfter_of_wraps {wrappings : Wrappings} {number wrapped : Nat} {label : String}
    (wraps : wrappings[number]? = some (wrapped, label)) (earlier : wrapped ≤ number)
    (tallies : Nat → Tally) (diagnostic : Diagnostic) :
    tallyAfter wrappings tallies (number + 1) diagnostic =
      tallyAfter wrappings
        (Function.update tallies (number + 1) ((tallies (number + 1)).accept diagnostic).1)
        wrapped (labelled label diagnostic) := by
  funext target
  unfold tallyAfter
  by_cases same : target = number + 1
  · subst same
    rw [labelsTo?_self, labelsTo?_eq_none_of_lt (Nat.lt_succ_of_le earlier)]
    simp
  · rw [labelsTo?_of_wraps wraps earlier same, Function.update_of_ne same]
    cases labelsTo? wrappings target wrapped with
    | none => rfl
    | some labels => simp [labelled_labelled, String.join_append]

namespace IsForest

variable {options : Options} {wrappings : Wrappings} {tallies : Nat → Tally}
  {reporters : List Reporter}

/-- A diagnostic that is handed to a reporter of a forest is accepted by every reporter on its
way, and the base answers. -/
theorem accept (forest : IsForest options wrappings tallies reporters) (texts : HelpTexts)
    {number : Nat} (inside : number ≤ wrappings.length) (diagnostic : Diagnostic) :
    IsForest options wrappings (tallyAfter wrappings tallies number diagnostic)
        (Network.accept texts reporters number diagnostic).1 ∧
      ∃ labels, labelsTo? wrappings 0 number = some labels ∧
        (Network.accept texts reporters number diagnostic).2 =
          (tallies 0).admits (labelled (String.join labels) diagnostic) := by
  induction number using Nat.strongRecOn generalizing tallies reporters diagnostic with
  | ind number ih =>
      cases number with
      | zero =>
          have onlyBase : tallyAfter wrappings tallies 0 diagnostic =
              Function.update tallies 0 ((tallies 0).accept diagnostic).1 := by
            funext target
            by_cases same : target = 0
            · subst same
              simp [tallyAfter]
            · rw [Function.update_of_ne same, tallyAfter, labelsTo?, if_neg same]
          rw [Network.accept, forest.base, onlyBase]
          exact ⟨forest.set_base (by simp [forest.options]), [], by simp [Reporter.accept]⟩
      | succ number =>
          obtain ⟨wrapped, label, isWrapping⟩ : ∃ wrapped label,
              wrappings[number]? = some (wrapped, label) := ⟨_, _, List.getElem?_eq_getElem inside⟩
          obtain ⟨earlier, isLabelling⟩ := forest.wraps isWrapping
          rw [tallyAfter_of_wraps isWrapping earlier,
            labelsTo?_of_wraps isWrapping earlier (by omega), Network.accept, isLabelling]
          let counting := ((tallies (number + 1)).accept diagnostic).1
          have counted : IsForest options wrappings (Function.update tallies (number + 1) counting)
              (reporters.set (number + 1) (.labelling counting wrapped label)) :=
            forest.set_labelling isWrapping (by simp [counting, forest.options])
              (by simp [counting, forest.countsAll])
          obtain ⟨handedOn, labels, way, answer⟩ :=
            ih wrapped (Nat.lt_succ_of_le earlier) counted (by omega) (labelled label diagnostic)
          simp only [Reporter.accept, if_pos (Nat.lt_succ_of_le earlier)]
          refine ⟨handedOn, labels ++ [label], by rw [way]; rfl, ?_⟩
          rw [answer, Function.update_of_ne (by omega), labelled_labelled]
          simp [String.join_append]

/-- A report is escalated where it enters the forest. -/
theorem report {network : Network}
    (forest : IsForest options wrappings tallies network.reporters) {number : Nat}
    (inside : number ≤ wrappings.length) (diagnostic : Diagnostic) :
    IsForest options wrappings
        (tallyAfter wrappings tallies number (diagnostic.escalate options))
        (network.report number (.full diagnostic)).1.reporters ∧
      ∃ labels, labelsTo? wrappings 0 number = some labels ∧
        (network.report number (.full diagnostic)).2 =
          (tallies 0).admits (labelled (String.join labels) (diagnostic.escalate options)) := by
  have found := List.getElem?_eq_getElem (l := network.reporters) (i := number)
    (by rw [forest.length]; omega)
  simp only [Network.report, found, Report.diagnostic?, forest.options_eq found]
  exact forest.accept network.texts inside (diagnostic.escalate options)

end IsForest

/-- What becomes of a report on its way to a reporter of a forest, if the way leads there. -/
def arrival? (options : Options) (wrappings : Wrappings) (target : Nat)
    (call : Nat × Diagnostic) : Option Diagnostic :=
  (labelsTo? wrappings target call.1).map fun labels =>
    labelled (String.join labels) (call.2.escalate options)

/-- What becomes of a report on its way to the base of a forest: the labels of the way stand in
front of its message, and its severity is escalated. -/
def delivered (options : Options) (wrappings : Wrappings) (call : Nat × Diagnostic) :
    Diagnostic :=
  { call.2 with
    severity := call.2.severity.escalate options
    message := String.join ((labelsTo? wrappings 0 call.1).getD []) ++ call.2.message }

theorem labelled_of_way (options : Options) {wrappings : Wrappings} {call : Nat × Diagnostic}
    {labels : List String} (way : labelsTo? wrappings 0 call.1 = some labels) :
    labelled (String.join labels) (call.2.escalate options) =
      delivered options wrappings call := by
  simp [delivered, way, labelled, Diagnostic.escalate]

section Recording

variable {options : Options} {wrappings : Wrappings} (tallies : Nat → Tally)
  (call : Nat × Diagnostic) (target : Nat)

theorem admits_tallyAfter (diagnostic : Diagnostic) (number : Nat) :
    (tallyAfter wrappings tallies number diagnostic target).admits =
      (tallies target).admits := by
  unfold tallyAfter
  split
  · rfl
  · exact funext fun other => Tally.admits_accept ..

/-- A tally records what arrives at it and is admitted. -/
theorem recorded_tallyAfter :
    (tallyAfter wrappings tallies call.1 (call.2.escalate options) target).recorded =
      (tallies target).recorded ++
        (arrival? options wrappings target call).toList.filter (tallies target).admits := by
  unfold tallyAfter arrival?
  cases labelsTo? wrappings target call.1 with
  | none => simp
  | some labels => simp [Tally.recorded_accept, List.filter_cons]

end Recording

namespace IsForest

variable {options : Options} {wrappings : Wrappings} {tallies : Nat → Tally}
  {network : Network} {calls : List (Nat × Diagnostic)}

/-- Over a sequence of reports every reporter of a forest records what arrives at it and is
admitted. -/
theorem reportAll (forest : IsForest options wrappings tallies network.reporters)
    (inside : ∀ call ∈ calls, call.1 ≤ wrappings.length) :
    ∃ final, IsForest options wrappings final (network.reportAll calls).1.reporters ∧
      ∀ target, (final target).recorded = (tallies target).recorded ++
        (calls.filterMap (arrival? options wrappings target)).filter (tallies target).admits := by
  induction calls generalizing network tallies with
  | nil => exact ⟨tallies, forest, by simp⟩
  | cons call rest ih =>
      obtain ⟨next, _⟩ := forest.report (inside call List.mem_cons_self) call.2
      obtain ⟨final, isForest, recorded⟩ :=
        ih next fun other mem => inside other (List.mem_cons_of_mem call mem)
      refine ⟨final, isForest, fun target => ?_⟩
      rw [recorded target, recorded_tallyAfter, admits_tallyAfter, List.filterMap_cons,
        List.append_assoc, ← List.filter_append]
      cases arrival? options wrappings target call <;> rfl

/-- Each of them is answered as the base answers what reaches it. -/
theorem answers_reportAll (forest : IsForest options wrappings tallies network.reporters)
    (inside : ∀ call ∈ calls, call.1 ≤ wrappings.length) :
    (network.reportAll calls).2 =
      calls.map fun call => (tallies 0).admits (delivered options wrappings call) := by
  induction calls generalizing network tallies with
  | nil => rfl
  | cons call rest ih =>
      obtain ⟨next, labels, way, answer⟩ := forest.report (inside call List.mem_cons_self) call.2
      have answers := ih next fun other mem => inside other (List.mem_cons_of_mem call mem)
      rw [admits_tallyAfter] at answers
      rw [labelled_of_way options way] at answer
      exact congrArg₂ List.cons answer answers

/-- From every reporter of a forest the way leads to the base. -/
theorem filterMap_arrival? (forest : IsForest options wrappings tallies network.reporters)
    (inside : ∀ call ∈ calls, call.1 ≤ wrappings.length) :
    calls.filterMap (arrival? options wrappings 0) =
      calls.map (delivered options wrappings) := by
  induction calls with
  | nil => rfl
  | cons call rest ih =>
      obtain ⟨_, labels, way, _⟩ := forest.report (inside call List.mem_cons_self) call.2
      have arrives : arrival? options wrappings 0 call =
          some (delivered options wrappings call) := by
        rw [arrival?, way, Option.map_some, labelled_of_way options way]
      rw [List.filterMap_cons_some arrives, List.map_cons,
        ih fun other mem => inside other (List.mem_cons_of_mem call mem)]

end IsForest

section Building

variable {base : Tally}

/-- The tallies of a forest to which nothing was reported since its base was handed over. -/
def freshTallies (base : Tally) (number : Nat) : Tally :=
  if number = 0 then base else { options := base.options }

theorem isForest_base (base : Tally) :
    IsForest base.options [] (freshTallies base) [.counting base] where
  length := rfl
  base := rfl
  wraps isWrapping := by simp at isWrapping
  options number := by
    unfold freshTallies
    split <;> rfl
  countsAll number := rfl

/-- A forest to which nothing was reported stays one when it grows. -/
theorem IsForest.push? {wrappings : Wrappings} {network after : Network}
    (forest : IsForest base.options wrappings (freshTallies base) network.reporters)
    {wrapped : Nat} {label : String}
    (pushed : network.push? (.labelling {} wrapped label) = some after) :
    IsForest base.options (wrappings ++ [(wrapped, label)]) (freshTallies base)
      after.reporters := by
  obtain ⟨inner, found, rfl⟩ := Option.map_eq_some_iff.mp pushed
  have inside := (List.getElem?_eq_some_iff.mp found).1
  rw [forest.length] at inside
  have grown := forest.push (Nat.le_of_lt_succ inside) label
  have unchanged : Function.update (freshTallies base) (wrappings.length + 1)
      { options := base.options } = freshTallies base :=
    Function.update_eq_self (wrappings.length + 1) (freshTallies base)
  rw [unchanged] at grown
  simpa [forest.options_eq found] using grown

/-- A forest to which nothing was reported stays one when it grows by several reporters. -/
theorem IsForest.foldlM_push? {older newer : Wrappings} {start network : Network}
    (isForest : IsForest base.options older (freshTallies base) start.reporters)
    (grown : newer.foldlM (fun network wrapping =>
      network.push? (.labelling {} wrapping.1 wrapping.2)) start = some network) :
    IsForest base.options (older ++ newer) (freshTallies base) network.reporters := by
  induction newer generalizing older start with
  | nil =>
      obtain rfl : start = network := by simpa using grown
      simpa using isForest
  | cons wrapping rest ih =>
      rw [List.foldlM_cons, Option.bind_eq_bind, Option.bind_eq_some_iff] at grown
      obtain ⟨next, pushed, grown⟩ := grown
      have longer := ih (isForest.push? pushed) grown
      rwa [List.append_assoc, List.singleton_append] at longer

/-- What is built over a base is a forest. -/
theorem isForest_of_forest? {wrappings : Wrappings} {network : Network}
    (built : forest? base wrappings = some network) :
    IsForest base.options wrappings (freshTallies base) network.reporters :=
  (isForest_base base).foldlM_push? built

end Building

/-- Whether a diagnostic that enters a forest at one reporter passes another one: it enters there
or at a reporter that wraps it, directly or through others. -/
def passes (wrappings : Wrappings) (target number : Nat) : Bool :=
  (labelsTo? wrappings target number).isSome

/-- How a forest deals with calls that report diagnostics to its reporters. -/
structure Forwards (base : Tally) (wrappings : Wrappings) (calls : List (Nat × Diagnostic))
    (after : Network) (answers : List Bool) : Prop where
  /-- The base records what reaches it, in the order of the calls, as far as it is admitted. -/
  records : ∃ tally, after.reporters[0]? = some (.counting tally) ∧
    tally.recorded = base.recorded ++
      (calls.map (delivered base.options wrappings)).filter base.admits
  /-- Each call is answered as the base answers what reaches it. -/
  replies : answers =
    calls.map fun call => (base.accept (delivered base.options wrappings call)).2
  /-- A labelling reporter counts what enters at it or at a reporter that wraps it, whether or
  not the base records it. -/
  counts : ∀ {number wrapped label}, wrappings[number]? = some (wrapped, label) →
    ∃ tally, after.reporters[number + 1]? = some (.labelling tally wrapped label) ∧
      ∀ severity,
        tally.count severity = calls.countP (fun call =>
          passes wrappings (number + 1) call.1 &&
            call.2.severity.escalate base.options = severity) ∧
        tally.countEarly severity = calls.countP fun call =>
          passes wrappings (number + 1) call.1 &&
            (call.2.severity.escalate base.options = severity && !call.2.subsystem.isLate)
  /-- Where warnings are errors, no reporter counts a warning. -/
  noWarnings : base.options.warningsAsErrors = true → base.count .warning = 0 →
    ∀ reporter ∈ after.reporters, reporter.tally.count .warning = 0

/-- The number of arrivals with a property that labels and escalation leave alone. -/
theorem countP_arrivals (options : Options) (wrappings : Wrappings) (target : Nat)
    (calls : List (Nat × Diagnostic)) {property : Diagnostic → Bool}
    (kept : ∀ label diagnostic, property (labelled label diagnostic) = property diagnostic) :
    (calls.filterMap (arrival? options wrappings target)).countP property =
      calls.countP fun call =>
        passes wrappings target call.1 && property (call.2.escalate options) := by
  rw [List.countP_filterMap]
  congr 1
  funext call
  unfold arrival? passes
  cases labelsTo? wrappings target call.1 <;> simp [kept]

/-- Where warnings are errors, no arrival is a warning. -/
theorem severity_ne_warning {options : Options} (raising : options.warningsAsErrors = true)
    {wrappings : Wrappings} {target : Nat} {calls : List (Nat × Diagnostic)}
    {diagnostic : Diagnostic}
    (arrives : diagnostic ∈ calls.filterMap (arrival? options wrappings target)) :
    diagnostic.severity ≠ .warning := by
  obtain ⟨call, _, isArrival⟩ := List.mem_filterMap.mp arrives
  obtain ⟨labels, _, rfl⟩ := Option.map_eq_some_iff.mp isArrival
  exact Severity.escalate_ne_warning call.2.severity raising

/-- Whatever is reported to a forest, it is forwarded to the base once and with all labels. -/
theorem forwards {base : Tally} {wrappings : Wrappings} {network : Network}
    (built : forest? base wrappings = some network) {calls : List (Nat × Diagnostic)}
    (inside : ∀ call ∈ calls, call.1 ≤ wrappings.length) :
    Forwards base wrappings calls (network.reportAll calls).1 (network.reportAll calls).2 := by
  have forest := isForest_of_forest? built
  obtain ⟨final, isForest, recorded⟩ := forest.reportAll inside
  refine { records := ?_, replies := ?_, counts := ?_, noWarnings := ?_ }
  · refine ⟨final 0, isForest.base, ?_⟩
    rw [recorded 0, forest.filterMap_arrival? inside]
    rfl
  · simp only [Tally.snd_accept]
    exact forest.answers_reportAll inside
  · intro number wrapped label wraps
    refine ⟨final (number + 1), (isForest.wraps wraps).2, fun severity => ?_⟩
    have all : (final (number + 1)).recorded =
        calls.filterMap (arrival? base.options wrappings (number + 1)) := by
      rw [recorded]
      simp [freshTallies, Tally.admits]
    rw [Tally.count, Tally.countEarly, all]
    exact ⟨countP_arrivals _ _ _ _ fun _ _ => rfl, countP_arrivals _ _ _ _ fun _ _ => rfl⟩
  · intro raising clean reporter mem
    obtain ⟨number, found⟩ := List.mem_iff_getElem?.mp mem
    rw [isForest.tally_eq found, Tally.count, recorded, List.countP_append, Nat.add_eq_zero_iff]
    constructor
    · unfold freshTallies
      split
      · exact clean
      · rfl
    · rw [List.countP_eq_zero]
      intro diagnostic arrives
      simpa using severity_ne_warning raising (List.mem_filter.mp arrives).1

/-- Two reporters wrap each other and a third one stands beside them, over a base that keeps
errors only and takes warnings for errors. A warning passes two labels and is kept, and a remark
is counted on its way and refused. -/
theorem forwards_sample :
    let base : Tally := { options := { warningsAsErrors := true }, errorsOnly := true }
    let wrappings : Wrappings := [(0, "A "), (1, "B "), (0, "C ")]
    let calls : List (Nat × Diagnostic) :=
      [(2, { severity := .warning, message := "w" }), (3, { severity := .info, message := "i" })]
    (∀ call ∈ calls, call.1 ≤ wrappings.length) ∧
      ∃ network, forest? base wrappings = some network ∧
        Forwards base wrappings calls (network.reportAll calls).1 (network.reportAll calls).2 ∧
        (network.reportAll calls).2 = [true, false] ∧
        calls.map (fun call => ((delivered base.options wrappings call).severity,
          (delivered base.options wrappings call).message)) = [(.error, "A B w"), (.info, "C i")] ∧
        (List.range 4).map (fun target => calls.countP fun call =>
          passes wrappings target call.1) = [2, 1, 1, 1] := by
  intro base wrappings calls
  have inside : ∀ call ∈ calls, call.1 ≤ wrappings.length := by decide
  obtain ⟨network, built⟩ : ∃ network, forest? base wrappings = some network := ⟨_, rfl⟩
  have forwarded := forwards built inside
  refine ⟨inside, network, built, forwarded, ?_, by decide +kernel, by decide +kernel⟩
  rw [forwarded.replies]
  decide

end Network

end Proofline
