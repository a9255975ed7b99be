import HingeLoss.Decimal.Reading
import HingeLoss.Solver.Settings
import HingeLoss.Text.Blank

/-!
# Configuration

Log filter and solver settings are configured by environment variables. White space around a value
does not count, and a blank value is as good as none. The first value that is not valid is reported,
in the order of the settings.
-/

namespace HingeLoss

open Decimal Text

/-- The settings, in the order in which they are read. -/
inductive Setting where
  | logFilter
  | verbose
  | maxIterations
  | timeLimit
  | absoluteGap
  | relativeGap
deriving DecidableEq, Repr

/-- The environment variable that holds a setting. -/
def Setting.key : Setting → String
  | .logFilter => "CVX_REASONER_LOG"
  | .verbose => "CVX_REASONER_VERBOSE"
  | .maxIterations => "CVX_REASONER_MAX_ITER"
  | .timeLimit => "CVX_REASONER_TIME_LIMIT"
  | .absoluteGap => "CVX_REASONER_TOL_GAP_ABS"
  | .relativeGap => "CVX_REASONER_TOL_GAP_REL"

/-- Why the value of a setting is not valid. -/
inductive SettingFault where
  | notBoolean
  | notNumeral (fault : NumeralFault)
  | outOfRange
deriving DecidableEq, Repr

/-- A setting with the value that is not valid, without the white space around it. -/
structure ConfigurationFault where
  setting : Setting
  value : String
  fault : SettingFault
deriving DecidableEq, Repr

def ConfigurationFault.message (fault : ConfigurationFault) : String :=
  let reason :=
    match fault.fault with
    | .notBoolean => "expected a boolean, got '" ++ fault.value ++ "'"
    | .notNumeral numeralFault => "'" ++ fault.value ++ "': " ++ numeralFault.message
    | .outOfRange => "must be positive, got '" ++ fault.value ++ "'"
  "invalid value for " ++ fault.setting.key ++ ": " ++ reason

/-- What the environment decides. -/
structure Configuration where
  logFilter : String
  settings : Settings

/-- The values of environment variables. One that is not Unicode is as good as not set. -/
abbrev Environment := String → Option String

/-- Reads a truth value, in any mix of upper and lower case. -/
def readBool (text : String) : Except SettingFault Bool :=
  match String.ofList (text.toList.map Char.toLower) with
  | "1" | "true" | "yes" | "on" => .ok true
  | "0" | "false" | "no" | "off" => .ok false
  | _ => .error .notBoolean

/-- The largest count of 32 bits. -/
def mostIterations : Nat := Nat.pow 2 32 - 1

/-- Reads a limit for the iterations, which may be zero. -/
def readIterations (text : String) : Except SettingFault Nat :=
  (readCount mostIterations text).mapError .notNumeral

/-- Reads a positive number, which may be infinite if that is allowed. -/
def readPositive (infiniteAllowed : Bool) (text : String) : Except SettingFault Float := do
  let value ← (readFloat text).mapError SettingFault.notNumeral
  if 0 < value && (value.isFinite || infiniteAllowed) then return value
  else throw .outOfRange

namespace Configuration

def standard : Configuration := ⟨"info", .standard⟩

/-- The value of a setting, if it has one that is not blank. -/
def valueOf? (environment : Environment) (setting : Setting) : Option String :=
  ((environment setting.key).map trim).filter (· ≠ "")

/-- The value of a setting as it is read, or else the value that it has by default. -/
def read {α : Type} (environment : Environment) (setting : Setting) (default : α)
    (reader : String → Except SettingFault α) : Except ConfigurationFault α :=
  match valueOf? environment setting with
  | none => .ok default
  | some value => (reader value).mapError fun fault => ⟨setting, value, fault⟩

/-- The configuration of an environment. The first setting that is not valid ends the reading. -/
def ofEnvironment (environment : Environment) : Except ConfigurationFault Configuration := do
  let settings := Settings.standard
  let logFilter ← read environment .logFilter standard.logFilter .ok
  let verbose ← read environment .verbose settings.verbose readBool
  let maxIterations ← read environment .maxIterations settings.maxIterations readIterations
  let timeLimit ← read environment .timeLimit settings.timeLimit (readPositive true)
  let absoluteGap ← read environment .absoluteGap settings.absoluteGap (readPositive false)
  let relativeGap ← read environment .relativeGap settings.relativeGap (readPositive false)
  return ⟨logFilter, { verbose, maxIterations, timeLimit, absoluteGap, relativeGap }⟩

end Configuration

end HingeLoss
