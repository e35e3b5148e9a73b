import Proofline.Log
import Proofline.Text.Decimal

/-!
# Options

The settings shared by reporters, projects and requests. Each setting has a
name under which a text can be assigned to it; a text that does not denote a
value of the setting is refused and changes nothing. Settings are independent
of each other, so the order in which they are assigned does not matter.
-/

namespace Proofline

/-- Values of all settings. -/
structure Options where
  /-- Whether a warning is recorded as an error. -/
  warningsAsErrors : Bool := false
  /-- Zero silences notices of deprecation. -/
  deprecationNoise : Int := 1
  /-- Whether the console shows error ids and their help texts. -/
  verbose : Bool := false
  /-- Whether the console prints diagnostics of level info. -/
  printTooltips : Bool := false
  /-- Whether the console shows the line a diagnostic points to. -/
  showSnippets : Bool := false
  /-- Whether console output is coloured. -/
  useColor : Bool := false
  /-- The stack size of the worker, in bytes. -/
  workerStackSize : Nat := 268435456
  /-- How often a waiting caller looks at its token, in milliseconds. -/
  pollInterval : Nat := 10
  /-- The least level of log lines that are written. -/
  logLevel : LogLevel := .warning
deriving DecidableEq, Repr, Inhabited

/-- The settings that can be assigned by name. -/
inductive Setting where
  | warningsAsErrors
  | deprecationNoise
  | verbose
  | printTooltips
  | showSnippets
  | useColor
  | workerStackSize
  | pollInterval
  | logLevel
deriving DecidableEq, Repr

namespace Setting

/-- All settings, in the order in which the environment is read. -/
def all : List Setting :=
  [warningsAsErrors, deprecationNoise, verbose, printTooltips, showSnippets, useColor,
    workerStackSize, pollInterval, logLevel]

/-- The name under which a setting is assigned. -/
def name : Setting → String
  | warningsAsErrors => "TESSERA_WARNINGS_AS_ERRORS"
  | deprecationNoise => "TESSERA_DEPRECATION_NOISE"
  | verbose => "TESSERA_VERBOSE"
  | printTooltips => "TESSERA_PRINT_TOOLTIPS"
  | showSnippets => "TESSERA_SHOW_SNIPPETS"
  | useColor => "TESSERA_COLOR"
  | workerStackSize => "TESSERA_WORKER_STACK_SIZE"
  | pollInterval => "TESSERA_POLL_INTERVAL_MS"
  | logLevel => "TESSERA_LOG"

/-- The setting with the given name. -/
def ofName? (text : String) : Option Setting :=
  all.find? fun setting => setting.name = text

@[simp]
theorem ofName?_name (setting : Setting) : ofName? setting.name = some setting := by
  cases setting <;> decide

/-- The truth value a text stands for. -/
def flag? (text : String) : Option Bool :=
  if text ∈ ["1", "true", "on", "yes"] then
    some true
  else if text ∈ ["0", "false", "off", "no"] then
    some false
  else
    none

/-- The least number too large for a noise level, 2 ^ 31. -/
def noiseLimit : Int := 2147483648

/-- The noise level a text denotes. -/
def noise? (text : String) : Option Int :=
  (Decimal.integer? text.toList).filter fun number => 0 ≤ number ∧ number < noiseLimit

/-- The least number too large for a stack size, 2 ^ 64. -/
def stackSizeLimit : Nat := 18446744073709551616

/-- The stack size a text denotes, which is positive and has no sign. -/
def stackSize? (text : String) : Option Nat :=
  (Decimal.natural? text.toList).filter fun number => 0 < number ∧ number < stackSizeLimit

/-- The least number too large for an interval, 2 ^ 63. -/
def intervalLimit : Int := 9223372036854775808

/-- The interval a text denotes, which is positive. -/
def interval? (text : String) : Option Nat :=
  ((Decimal.integer? text.toList).filter fun number =>
    0 < number ∧ number < intervalLimit).map Int.toNat

/-- `options` with the setting replaced by the value `text` denotes, or
nothing when `text` denotes no value of the setting. -/
def assign? (setting : Setting) (text : String) (options : Options) : Option Options :=
  match setting with
  | warningsAsErrors => (flag? text).map fun flag => { options with warningsAsErrors := flag }
  | deprecationNoise => (noise? text).map fun noise => { options with deprecationNoise := noise }
  | verbose => (flag? text).map fun flag => { options with verbose := flag }
  | printTooltips => (flag? text).map fun flag => { options with printTooltips := flag }
  | showSnippets => (flag? text).map fun flag => { options with showSnippets := flag }
  | useColor => (flag? text).map fun flag => { options with useColor := flag }
  | workerStackSize => (stackSize? text).map fun size => { options with workerStackSize := size }
  | pollInterval => (interval? text).map fun period => { options with pollInterval := period }
  | logLevel => (LogLevel.ofName? text).map fun level => { options with logLevel := level }

end Setting

/-- Why an assignment was refused. -/
inductive OptionError where
  /-- No setting has this name. -/
  | unknown (name : String)
  /-- The text denotes no value of the setting. -/
  | invalid (name value : String)
deriving DecidableEq, Repr

namespace OptionError

/-- The message shown for a refused assignment. -/
def message : OptionError → String
  | unknown name => "unknown option: " ++ name
  | invalid name value => "invalid value '" ++ value ++ "' for " ++ name

end OptionError

namespace Options

/-- Assign `value` to the setting called `name`. -/
def set (options : Options) (name value : String) : Except OptionError Options :=
  match Setting.ofName? name with
  | none => .error (.unknown name)
  | some setting =>
      match setting.assign? value options with
      | none => .error (.invalid name value)
      | some changed => .ok changed

/-- Assign a setting from the environment if it is set there. A refused text
leaves the options alone and adds a warning to the log. -/
def readSetting (lookup : String → Option String) (state : Options × String)
    (setting : Setting) : Options × String :=
  match lookup setting.name with
  | none => state
  | some value =>
      match state.1.set setting.name value with
      | .ok changed => (changed, state.2)
      | .error refusal =>
          let logger : Logger := { tag := "options", threshold := .warning }
          (state.1, state.2 ++ (logger.line? .warning refusal.message).getD "")

/-- The defaults overlaid with every setting of the environment, and the log
lines for the texts that were refused. -/
def ofEnvironment (lookup : String → Option String) : Options × String :=
  Setting.all.foldl (readSetting lookup) ({}, "")

/-- The logger for `tag` at the configured threshold. -/
def logger (options : Options) (tag : String) : Logger where
  tag
  threshold := options.logLevel

end Options

end Proofline
