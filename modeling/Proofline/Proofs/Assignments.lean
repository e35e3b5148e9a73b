import Mathlib.Data.List.Induction
import Mathlib.Data.Nat.Digits.Defs
import Mathlib.Logic.Function.Basic
import Proofline.Options

/-!
# Assignments by name

A name stands for at most one setting, and a text for at most one value of it: a truth value, a
level, or a number within the bounds of the setting. An assignment either refuses the name or the
text and changes nothing, or it changes the value of this one setting. What a text stands for does
not depend on the options, so assignments under different names can change places, and the
environment can be read in any order.
-/

namespace Proofline

namespace Decimal

/-- The number that a run of digits stands for, the last digit counting once and each digit ten
times as much as the one behind it. -/
def placeValue (digits : List Char) : Nat :=
  Nat.ofDigits 10 (digits.reverse.map fun digit => digit.toNat - '0'.toNat)

theorem value_eq_placeValue (digits : List Char) : value digits = placeValue digits := by
  induction digits using List.reverseRecOn with
  | nil => rfl
  | append_singleton digits digit ih =>
      rw [value, List.foldl_append, ← value, ih, placeValue, placeValue, List.reverse_append,
        List.reverse_singleton, List.singleton_append, List.map_cons, Nat.ofDigits_cons,
        List.foldl_cons, List.foldl_nil, Nat.add_comm]

/-- Whether a text denotes a number: the text is a run of digits, or, where signs are allowed, a
minus sign and a run of digits. -/
def Denotes (signed : Bool) (text : List Char) (number : Int) : Prop :=
  ∃ digits, IsNumeral digits ∧
    (text = digits ∧ number = placeValue digits ∨
      signed = true ∧ text = '-' :: digits ∧ number = -placeValue digits)

theorem not_isNumeral_minus {rest : List Char} : ¬IsNumeral ('-' :: rest) := by
  rintro ⟨_, digits⟩
  exact absurd (digits '-' List.mem_cons_self) (by decide)

theorem denotes_unsigned_iff {text : List Char} {number : Int} :
    Denotes false text number ↔ IsNumeral text ∧ number = placeValue text := by
  simp [Denotes]

theorem integer?_eq_some_iff {text : List Char} {number : Int} :
    integer? text = some number ↔ Denotes true text number := by
  unfold integer?
  split
  · rename_i rest
    simp only [Option.map_eq_some_iff, Option.bind_eq_bind, Option.bind_eq_some_iff,
      Option.pure_def, natural?_eq_some_iff, value_eq_placeValue]
    constructor
    · rintro ⟨_, ⟨_, ⟨numeral, rfl⟩, ⟨⟩⟩, rfl⟩
      exact ⟨rest, numeral, .inr ⟨rfl, rfl, rfl⟩⟩
    · rintro ⟨digits, numeral, ⟨rfl, _⟩ | ⟨_, isText, rfl⟩⟩
      · exact absurd numeral not_isNumeral_minus
      · obtain rfl := (List.cons.inj isText).2
        exact ⟨_, ⟨_, ⟨numeral, rfl⟩, rfl⟩, rfl⟩
  · rename_i unsigned
    simp only [Option.map_eq_some_iff, Option.bind_eq_bind, Option.bind_eq_some_iff,
      Option.pure_def, natural?_eq_some_iff, value_eq_placeValue]
    constructor
    · rintro ⟨_, ⟨_, ⟨numeral, rfl⟩, ⟨⟩⟩, rfl⟩
      exact ⟨text, numeral, .inl ⟨rfl, rfl⟩⟩
    · rintro ⟨digits, numeral, ⟨rfl, rfl⟩ | ⟨_, isText, _⟩⟩
      · exact ⟨_, ⟨_, ⟨numeral, rfl⟩, rfl⟩, rfl⟩
      · exact absurd isText (unsigned digits)

end Decimal

theorem LogLevel.ofName?_eq_some_iff {text : String} {level : LogLevel} :
    ofName? text = some level ↔ text = level.name ∨ text = "warn" ∧ level = .warning := by
  constructor
  · intro found
    unfold ofName? at found
    split at found
    · rename_i isShort
      exact .inr ⟨isShort, (Option.some.inj found).symm⟩
    · have named : level.name = text := by simpa using List.find?_some found
      exact .inl named.symm
  · rintro (rfl | ⟨rfl, rfl⟩)
    · exact ofName?_name level
    · rfl

/-- A value of a setting. -/
inductive SettingValue where
  | flag (isOn : Bool)
  | number (number : Int)
  | level (level : LogLevel)
deriving DecidableEq

/-- The values that a setting can have. -/
inductive SettingKind where
  /-- The truth values. -/
  | flag
  /-- The numbers from `least` to `greatest`, which may be written with a minus sign or not. -/
  | number (signed : Bool) (least greatest : Int)
  /-- The levels of log lines. -/
  | level

/-- Whether a text stands for a value of the given kind. -/
def SettingKind.Denotes (kind : SettingKind) (text : String) (value : SettingValue) : Prop :=
  match kind with
  | flag =>
      text ∈ ["1", "true", "on", "yes"] ∧ value = .flag true ∨
        text ∈ ["0", "false", "off", "no"] ∧ value = .flag false
  | number signed least greatest =>
      ∃ number, Decimal.Denotes signed text.toList number ∧ least ≤ number ∧ number ≤ greatest ∧
        value = .number number
  | level =>
      ∃ level : LogLevel, (text = level.name ∨ text = "warn" ∧ level = .warning) ∧
        value = .level level

namespace Setting

/-- The values that a setting can be given. -/
def kind : Setting → SettingKind
  | warningsAsErrors | verbose | printTooltips | showSnippets | useColor => .flag
  | deprecationNoise => .number true 0 (2 ^ 31 - 1)
  | workerStackSize => .number false 1 (2 ^ 64 - 1)
  | pollInterval => .number true 1 (2 ^ 63 - 1)
  | logLevel => .level

/-- The value of a setting that a text stands for. -/
def read? (setting : Setting) (text : String) : Option SettingValue :=
  match setting with
  | warningsAsErrors | verbose | printTooltips | showSnippets | useColor =>
      (flag? text).map .flag
  | deprecationNoise => (noise? text).map .number
  | workerStackSize => (stackSize? text).map fun size : Nat => .number size
  | pollInterval => (interval? text).map fun period : Nat => .number period
  | logLevel => (LogLevel.ofName? text).map .level

variable {setting : Setting} {text name : String} {value : SettingValue}

theorem map_flag?_eq_some_iff :
    (flag? text).map SettingValue.flag = some value ↔ SettingKind.flag.Denotes text value := by
  have disjoint : ∀ word ∈ ["1", "true", "on", "yes"], word ∉ ["0", "false", "off", "no"] := by
    decide
  unfold flag?
  split
  · rename_i isOn
    simp [SettingKind.Denotes, isOn, disjoint text isOn, eq_comm]
  · rename_i notOn
    split
    · rename_i isOff
      simp [SettingKind.Denotes, notOn, isOff, eq_comm]
    · rename_i notOff
      simp [SettingKind.Denotes, notOn, notOff]

/-- A text stands for a number of a setting if what is read of it is that number. -/
theorem map_number_eq_some_iff {reading : Option Int} {signed : Bool} {least greatest : Int}
    (exact : ∀ number, reading = some number ↔
      Decimal.Denotes signed text.toList number ∧ least ≤ number ∧ number ≤ greatest) :
    reading.map .number = some value ↔
      (SettingKind.number signed least greatest).Denotes text value := by
  rw [Option.map_eq_some_iff, SettingKind.Denotes]
  refine exists_congr fun number => ?_
  rw [exact, and_assoc, and_assoc, @eq_comm _ value]

theorem noise?_eq_some_iff {number : Int} :
    noise? text = some number ↔
      Decimal.Denotes true text.toList number ∧ 0 ≤ number ∧ number ≤ 2 ^ 31 - 1 := by
  rw [noise?, Option.filter_eq_some_iff, Decimal.integer?_eq_some_iff, noiseLimit]
  simp only [decide_eq_true_eq]
  refine and_congr_right fun _ => ?_
  omega

theorem map_stackSize?_eq_some_iff {number : Int} :
    (stackSize? text).map (fun size : Nat => (size : Int)) = some number ↔
      Decimal.Denotes false text.toList number ∧ 1 ≤ number ∧ number ≤ 2 ^ 64 - 1 := by
  rw [Option.map_eq_some_iff, Decimal.denotes_unsigned_iff, stackSize?]
  simp only [Option.filter_eq_some_iff, Decimal.natural?_eq_some_iff, Decimal.value_eq_placeValue,
    decide_eq_true_eq]
  rw [stackSizeLimit]
  constructor
  · rintro ⟨_, ⟨⟨numeral, rfl⟩, positive, fits⟩, rfl⟩
    exact ⟨⟨numeral, rfl⟩, by omega, by omega⟩
  · rintro ⟨⟨numeral, rfl⟩, positive, fits⟩
    exact ⟨_, ⟨⟨numeral, rfl⟩, by omega, by omega⟩, rfl⟩

theorem map_interval?_eq_some_iff {number : Int} :
    (interval? text).map (fun period : Nat => (period : Int)) = some number ↔
      Decimal.Denotes true text.toList number ∧ 1 ≤ number ∧ number ≤ 2 ^ 63 - 1 := by
  rw [interval?, Option.map_map, Option.map_eq_some_iff]
  simp only [Option.filter_eq_some_iff, Decimal.integer?_eq_some_iff, decide_eq_true_eq,
    Function.comp_apply]
  rw [intervalLimit]
  constructor
  · rintro ⟨read, ⟨denotes, positive, fits⟩, rfl⟩
    rw [Int.toNat_of_nonneg (Int.le_of_lt positive)]
    exact ⟨denotes, by omega, by omega⟩
  · rintro ⟨denotes, positive, fits⟩
    exact ⟨number, ⟨denotes, by omega, by omega⟩, Int.toNat_of_nonneg (by omega)⟩

/-- What is read of a text is what it stands for. -/
theorem read?_eq_some_iff : setting.read? text = some value ↔ setting.kind.Denotes text value := by
  cases setting with
  | warningsAsErrors | verbose | printTooltips | showSnippets | useColor =>
      exact map_flag?_eq_some_iff
  | deprecationNoise => exact map_number_eq_some_iff fun _ => noise?_eq_some_iff
  | workerStackSize =>
      have read : read? .workerStackSize text =
          ((stackSize? text).map fun size : Nat => (size : Int)).map .number := by
        rw [Option.map_map]
        rfl
      rw [read]
      exact map_number_eq_some_iff fun _ => map_stackSize?_eq_some_iff
  | pollInterval =>
      have read : read? .pollInterval text =
          ((interval? text).map fun period : Nat => (period : Int)).map .number := by
        rw [Option.map_map]
        rfl
      rw [read]
      exact map_number_eq_some_iff fun _ => map_interval?_eq_some_iff
  | logLevel =>
      rw [read?, Option.map_eq_some_iff, kind, SettingKind.Denotes]
      refine exists_congr fun level => ?_
      rw [LogLevel.ofName?_eq_some_iff, @eq_comm _ value]

theorem read?_eq_none_iff :
    setting.read? text = none ↔ ∀ value, ¬setting.kind.Denotes text value := by
  rw [Option.eq_none_iff_forall_ne_some]
  exact forall_congr' fun value => not_congr read?_eq_some_iff

theorem mem_all (setting : Setting) : setting ∈ all := by
  cases setting <;> decide

theorem ofName?_eq_none_iff : ofName? text = none ↔ ∀ setting : Setting, setting.name ≠ text := by
  simp [ofName?, List.find?_eq_none, mem_all]

end Setting

namespace Options

/-- The value of a setting. -/
def value (options : Options) : Setting → SettingValue
  | .warningsAsErrors => .flag options.warningsAsErrors
  | .deprecationNoise => .number options.deprecationNoise
  | .verbose => .flag options.verbose
  | .printTooltips => .flag options.printTooltips
  | .showSnippets => .flag options.showSnippets
  | .useColor => .flag options.useColor
  | .workerStackSize => .number options.workerStackSize
  | .pollInterval => .number options.pollInterval
  | .logLevel => .level options.logLevel

/-- Options are determined by the values of the settings. -/
theorem value_injective : Function.Injective value := by
  intro first second same
  have each (setting : Setting) : first.value setting = second.value setting :=
    congrFun same setting
  rw [Options.mk.injEq]
  exact ⟨SettingValue.flag.inj (each .warningsAsErrors),
    SettingValue.number.inj (each .deprecationNoise), SettingValue.flag.inj (each .verbose),
    SettingValue.flag.inj (each .printTooltips), SettingValue.flag.inj (each .showSnippets),
    SettingValue.flag.inj (each .useColor),
    Int.ofNat.inj (SettingValue.number.inj (each .workerStackSize)),
    Int.ofNat.inj (SettingValue.number.inj (each .pollInterval)),
    SettingValue.level.inj (each .logLevel)⟩

theorem map_value_eq {α : Type} {reading : Option α} {change : α → Options}
    {toValue : α → SettingValue} {options : Options} {setting : Setting}
    (same : ∀ read other,
      (change read).value other = Function.update options.value setting (toValue read) other) :
    (reading.map change).map value =
      (reading.map toValue).map (Function.update options.value setting) := by
  rw [Option.map_map, Option.map_map]
  exact congrArg (Option.map · reading) (funext fun read => funext (same read))

/-- An assignment gives the setting what is read of the text, and nothing else changes. -/
theorem map_value_assign? (options : Options) (setting : Setting) (text : String) :
    (setting.assign? text options).map value =
      (setting.read? text).map (Function.update options.value setting) := by
  cases setting <;> exact map_value_eq fun _ other => by cases other <;> rfl

/-- What an assignment answers, and the options behind it. -/
def attempt (options : Options) (name text : String) : Option OptionError × Options :=
  match options.set name text with
  | .ok changed => (none, changed)
  | .error refusal => (some refusal, options)

/-- The answer of an assignment and the options behind it. -/
inductive Answers (options : Options) (name text : String) : Option OptionError × Options → Prop
  /-- No setting has the name, and nothing changes. -/
  | unknown (unnamed : ∀ setting : Setting, setting.name ≠ name) :
      Answers options name text (some (.unknown name), options)
  /-- The text stands for no value of the setting, and nothing changes. -/
  | invalid (setting : Setting) (named : setting.name = name)
      (meaningless : ∀ value, ¬setting.kind.Denotes text value) :
      Answers options name text (some (.invalid name text), options)
  /-- The setting gets the value that the text stands for, and nothing else changes. -/
  | assigned (setting : Setting) (value : SettingValue) (changed : Options)
      (named : setting.name = name) (denotes : setting.kind.Denotes text value)
      (isChanged : changed.value = Function.update options.value setting value) :
      Answers options name text (none, changed)

section Attempts

variable {name text : String} {setting : Setting}

theorem attempt_of_unnamed (unnamed : ∀ setting : Setting, setting.name ≠ name) (text : String)
    (options : Options) : options.attempt name text = (some (.unknown name), options) := by
  simp [attempt, set, Setting.ofName?_eq_none_iff.mpr unnamed]

theorem attempt_of_unread (unread : setting.read? text = none) (options : Options) :
    options.attempt setting.name text = (some (.invalid setting.name text), options) := by
  have unassigned : setting.assign? text options = none := by
    have none := map_value_assign? options setting text
    rwa [unread, Option.map_none, Option.map_eq_none_iff] at none
  simp [attempt, set, unassigned]

theorem attempt_of_read {value : SettingValue} (read : setting.read? text = some value)
    (options : Options) : ∃ changed, options.attempt setting.name text = (none, changed) ∧
      changed.value = Function.update options.value setting value := by
  have some := map_value_assign? options setting text
  rw [read, Option.map_some, Option.map_eq_some_iff] at some
  obtain ⟨changed, assigned, isChanged⟩ := some
  exact ⟨changed, by simp [attempt, set, assigned], isChanged⟩

/-- What an assignment comes to does not depend on the options: it is refused for all of them, or
gives the same value to the same setting of all of them. -/
theorem attempt_cases (name text : String) :
    (∃ refusal, ∀ options : Options, options.attempt name text = (some refusal, options)) ∨
      ∃ (setting : Setting) (value : SettingValue), setting.name = name ∧
        ∀ options : Options, ∃ changed, options.attempt name text = (none, changed) ∧
          changed.value = Function.update options.value setting value := by
  by_cases named : ∃ setting : Setting, setting.name = name
  · obtain ⟨setting, rfl⟩ := named
    cases read : setting.read? text with
    | none => exact .inl ⟨_, attempt_of_unread read⟩
    | some value => exact .inr ⟨setting, value, rfl, attempt_of_read read⟩
  · exact .inl ⟨_, attempt_of_unnamed (not_exists.mp named) text⟩

theorem attempt_eq_iff (options : Options) (name text : String)
    (outcome : Option OptionError × Options) :
    options.attempt name text = outcome ↔ options.Answers name text outcome := by
  constructor
  · rintro rfl
    by_cases named : ∃ setting : Setting, setting.name = name
    · obtain ⟨setting, rfl⟩ := named
      cases read : setting.read? text with
      | none =>
          rw [attempt_of_unread read]
          exact .invalid setting rfl (Setting.read?_eq_none_iff.mp read)
      | some value =>
          obtain ⟨changed, attempted, isChanged⟩ := attempt_of_read read options
          rw [attempted]
          exact .assigned setting value changed rfl (Setting.read?_eq_some_iff.mp read) isChanged
    · rw [attempt_of_unnamed (not_exists.mp named)]
      exact .unknown (not_exists.mp named)
  · intro answers
    cases answers with
    | unknown unnamed => exact attempt_of_unnamed unnamed text options
    | invalid setting named meaningless =>
        subst named
        exact attempt_of_unread (Setting.read?_eq_none_iff.mpr meaningless) options
    | assigned setting value changed named denotes isChanged =>
        subst named
        obtain ⟨other, attempted, isOther⟩ :=
          attempt_of_read (Setting.read?_eq_some_iff.mpr denotes) options
        rw [attempted, value_injective (isOther.trans isChanged.symm)]

/-- Assignments under different names can change places, and each answers what it answers alone. -/
theorem attempt_comm {first second : String} (differ : first ≠ second) (options : Options)
    (firstText secondText : String) :
    ((options.attempt first firstText).2.attempt second secondText).2 =
        ((options.attempt second secondText).2.attempt first firstText).2 ∧
      ((options.attempt first firstText).2.attempt second secondText).1 =
        (options.attempt second secondText).1 := by
  rcases attempt_cases first firstText with ⟨_, refused⟩ | ⟨setting, value, rfl, assigns⟩
  · simp [refused]
  rcases attempt_cases second secondText with ⟨_, refused⟩ | ⟨other, otherValue, rfl, assignsOther⟩
  · simp [refused]
  have distinct : setting ≠ other := fun same => differ (congrArg Setting.name same)
  obtain ⟨once, attempted, isOnce⟩ := assigns options
  obtain ⟨onceOther, attemptedOther, isOnceOther⟩ := assignsOther options
  obtain ⟨twice, attemptedTwice, isTwice⟩ := assignsOther once
  obtain ⟨twiceOther, attemptedTwiceOther, isTwiceOther⟩ := assigns onceOther
  simp only [attempted, attemptedOther, attemptedTwice, attemptedTwiceOther, and_true]
  apply value_injective
  rw [isTwice, isTwiceOther, isOnce, isOnceOther, Function.update_comm distinct]

end Attempts

section Environment

variable (lookup : String → Option String)

/-- The value that the environment gives a setting, if it gives one. -/
def given? (setting : Setting) : Option SettingValue :=
  (lookup setting.name).bind setting.read?

variable {lookup}

theorem readSetting_of_unset {setting : Setting} (unset : lookup setting.name = none)
    (state : Options × String) : readSetting lookup state setting = state := by
  rw [readSetting, unset]

theorem fst_readSetting_of_set {setting : Setting} {text : String}
    (isSet : lookup setting.name = some text) (state : Options × String) :
    (readSetting lookup state setting).1 = (state.1.attempt setting.name text).2 := by
  simp only [readSetting, isSet, attempt]
  cases state.1.set setting.name text <;> rfl

variable (lookup)

theorem value_readSetting (state : Options × String) (setting : Setting) :
    (readSetting lookup state setting).1.value = Function.update state.1.value setting
      ((given? lookup setting).getD (state.1.value setting)) := by
  cases isSet : lookup setting.name with
  | none => simp [readSetting_of_unset isSet, given?, isSet]
  | some text =>
      rw [fst_readSetting_of_set isSet, given?, isSet, Option.bind_some]
      cases read : setting.read? text with
      | none => simp [attempt_of_unread read]
      | some value =>
          obtain ⟨changed, attempted, isChanged⟩ := attempt_of_read read state.1
          rw [attempted, isChanged, Option.getD_some]

/-- Of the settings that are read, those change to which the environment gives a value. -/
theorem value_foldl_readSetting (order : List Setting) (state : Options × String)
    (setting : Setting) :
    (order.foldl (readSetting lookup) state).1.value setting =
      if setting ∈ order then (given? lookup setting).getD (state.1.value setting)
      else state.1.value setting := by
  induction order generalizing state with
  | nil => rfl
  | cons first rest ih =>
      rw [List.foldl_cons, ih, value_readSetting]
      by_cases same : setting = first
      · subst same
        cases given? lookup setting <;> simp
      · simp [same]

theorem value_ofEnvironment (setting : Setting) :
    (ofEnvironment lookup).1.value setting =
      (given? lookup setting).getD (value {} setting) := by
  rw [ofEnvironment, value_foldl_readSetting, if_pos setting.mem_all]

end Environment

/-- An assignment has the answer and the effect that its name and its text call for: an unknown name
or a text without a meaning is refused and changes nothing, and otherwise one setting gets the value
that the text stands for. Assignments under different names can change places, refused or not. So
the environment can be read in any order; each setting has the value that the environment gives it,
or else the one that it has by default. -/
theorem assignsByName :
    (∀ (options : Options) (name text : String) (outcome : Option OptionError × Options),
      options.attempt name text = outcome ↔ options.Answers name text outcome) ∧
    (∀ (options : Options) (first second firstText secondText : String), first ≠ second →
      ((options.attempt first firstText).2.attempt second secondText).2 =
          ((options.attempt second secondText).2.attempt first firstText).2 ∧
        ((options.attempt first firstText).2.attempt second secondText).1 =
          (options.attempt second secondText).1) ∧
    ∀ lookup : String → Option String,
      (∀ order : List Setting, order.Perm Setting.all →
        (order.foldl (readSetting lookup) ({}, "")).1 = (ofEnvironment lookup).1) ∧
      ∀ setting : Setting,
        (∀ text value, lookup setting.name = some text → setting.kind.Denotes text value →
          (ofEnvironment lookup).1.value setting = value) ∧
        ((∀ text, lookup setting.name = some text → ∀ value, ¬setting.kind.Denotes text value) →
          (ofEnvironment lookup).1.value setting = value {} setting) := by
  refine ⟨attempt_eq_iff, fun options _ _ firstText secondText differ =>
    attempt_comm differ options firstText secondText, fun lookup => ⟨?_, fun setting => ⟨?_, ?_⟩⟩⟩
  · intro order perm
    refine value_injective (funext fun setting => ?_)
    rw [value_foldl_readSetting, if_pos (perm.mem_iff.mpr setting.mem_all), value_ofEnvironment]
  · intro text value isSet denotes
    rw [value_ofEnvironment, given?, isSet, Option.bind_some,
      Setting.read?_eq_some_iff.mpr denotes, Option.getD_some]
  · intro meaningless
    rw [value_ofEnvironment, given?]
    cases isSet : lookup setting.name with
    | none => rfl
    | some text =>
        rw [Option.bind_some, Setting.read?_eq_none_iff.mpr (meaningless text isSet)]
        rfl

/-- The greatest interval with a leading zero, and one byte more than the greatest stack; an
environment with a noise of minus zero and a level that there is not. -/
theorem assignsByName_sample :
    let interval := "TESSERA_POLL_INTERVAL_MS"
    let stack := "TESSERA_WORKER_STACK_SIZE"
    let behind (options : Options) := (options.attempt interval "09223372036854775807").2
    let lookup (name : String) : Option String :=
      if name = "TESSERA_DEPRECATION_NOISE" then some "-0"
      else if name = "TESSERA_LOG" then some "loud"
      else none
    (((behind {}).attempt stack "18446744073709551616").2 =
        behind (({} : Options).attempt stack "18446744073709551616").2 ∧
      ((behind {}).attempt stack "18446744073709551616").1 =
        some (.invalid stack "18446744073709551616") ∧
      (behind {}).pollInterval = 9223372036854775807) ∧
    (Setting.all.reverse.foldl (readSetting lookup) ({}, "")).1 = (ofEnvironment lookup).1 ∧
    (ofEnvironment lookup).1.value .deprecationNoise = .number 0 ∧
    (ofEnvironment lookup).1.value .logLevel = .level .warning := by
  intro interval stack behind lookup
  rcases assignsByName with ⟨_, commute, environment⟩
  have swapped :=
    commute {} interval stack "09223372036854775807" "18446744073709551616" (by decide)
  rcases environment lookup with ⟨anyOrder, gives⟩
  have isZero : Decimal.IsNumeral ['0'] :=
    ⟨List.cons_ne_nil _ _, List.forall_mem_singleton.mpr rfl⟩
  have denotes : Setting.deprecationNoise.kind.Denotes "-0" (.number 0) :=
    ⟨0, ⟨['0'], isZero, .inr ⟨rfl, rfl, rfl⟩⟩, by decide, by decide, rfl⟩
  have meaningless : ∀ text, lookup Setting.logLevel.name = some text →
      ∀ value, ¬Setting.logLevel.kind.Denotes text value := by
    rintro _ ⟨⟩ value ⟨level, named | ⟨short, _⟩, _⟩
    · revert named
      cases level <;> decide
    · revert short
      decide
  exact ⟨⟨swapped.1, swapped.2.trans rfl, rfl⟩, anyOrder _ (List.reverse_perm _),
    (gives _).1 "-0" _ rfl denotes, (gives _).2 meaningless⟩

end Options

end Proofline
