import HingeLoss.CommandLine.Configuration
import HingeLoss.Proofs.Decimal.Reading
import HingeLoss.Proofs.Failure
import HingeLoss.Proofs.Text.Words
import Mathlib.Algebra.Ring.Nat

/-!
# Valid configurations

Each setting admits some texts, and what such a text means does not depend on any other setting. So
a configuration is made field by field, and an environment is refused for the first setting, in
their order, that has a text it does not admit.
-/

namespace HingeLoss

open Decimal Text

section Texts

variable {text : String}

def booleanWords : Bool → List String
  | true => ["1", "true", "yes", "on"]
  | false => ["0", "false", "no", "off"]

def BooleanText (text : String) (value : Bool) : Prop :=
  ∃ word ∈ booleanWords value, InAnyCase text.toList word.toList

/-- The text is a whole number of at most 32 bits. -/
def IterationsText (text : String) (count : Nat) : Prop :=
  CountText text.toList count ∧ count < 2 ^ 32

def PositiveText (infiniteAllowed : Bool) (text : String) (value : Float) : Prop :=
  FloatText text.toList value ∧ 0 < value ∧ (infiniteAllowed = false → value.isFinite = true)

theorem isUpper_of_mem_booleanWords {value : Bool} {word : String}
    (mem : word ∈ booleanWords value) : word.toList.any Char.isUpper = false := by
  revert word
  cases value <;> decide

/-- What `readBool` does with a text in lower case. -/
def booleanOf? (word : String) : Except SettingFault Bool :=
  match word with
  | "1" | "true" | "yes" | "on" => .ok true
  | "0" | "false" | "no" | "off" => .ok false
  | _ => .error .notBoolean

theorem booleanOf?_eq_ok_iff {word : String} {value : Bool} :
    booleanOf? word = .ok value ↔ word ∈ booleanWords value := by
  rw [booleanOf?.eq_def]
  split <;> cases value <;> simp_all [booleanWords]

theorem readBool_eq_ok_iff {value : Bool} : readBool text = .ok value ↔ BooleanText text value := by
  have read_eq : readBool text = booleanOf? (String.ofList (text.toList.map Char.toLower)) := rfl
  rw [read_eq, booleanOf?_eq_ok_iff, BooleanText]
  constructor
  · intro mem
    refine ⟨_, mem, ?_⟩
    rw [String.toList_ofList]
    have small := isUpper_of_mem_booleanWords mem
    rw [String.toList_ofList] at small
    exact (map_toLower_eq_iff small).1 rfl
  · rintro ⟨word, mem, named⟩
    rwa [(map_toLower_eq_iff (isUpper_of_mem_booleanWords mem)).2 named, String.ofList_toList]

theorem readIterations_eq_ok_iff {count : Nat} :
    readIterations text = .ok count ↔ IterationsText text count := by
  have limit : count ≤ mostIterations ↔ count < 2 ^ 32 := Nat.lt_succ_iff.symm
  rw [readIterations, mapError_eq_ok_iff, readCount_eq_ok_iff, limit, IterationsText]

theorem readPositive_eq_ok_iff {infiniteAllowed : Bool} {value : Float} :
    readPositive infiniteAllowed text = .ok value ↔ PositiveText infiniteAllowed text value := by
  have inRange (value : Float) : (0 < value && (value.isFinite || infiniteAllowed)) = true ↔
      0 < value ∧ (infiniteAllowed = false → value.isFinite = true) := by
    cases infiniteAllowed <;> simp
  simp only [readPositive, bind_eq_ok_iff, mapError_eq_ok_iff, readFloat_eq_ok_iff, PositiveText]
  constructor
  · rintro ⟨found, floatText, checked⟩
    split at checked
    case isTrue positive =>
      obtain rfl := pure_eq_ok_iff.1 checked
      exact ⟨floatText, (inRange found).1 positive⟩
    case isFalse => exact absurd checked throw_ne_ok
  · rintro ⟨floatText, positive⟩
    exact ⟨value, floatText, if_pos ((inRange value).2 positive)⟩

theorem isNaN_of_pos {value : Float} (positive : 0 < value) : value.isNaN = false := by
  change decide ((Float.Model.UnpackedFloat.compare (.zero .positive) value.toModel.unpack ==
    some .lt) = true) = true at positive
  change value.toModel.unpack.isNaN = false
  cases unpacked : value.toModel.unpack with
  | notANumber =>
      rw [unpacked] at positive
      exact absurd positive (by decide)
  | infinity => rfl
  | zero => rfl
  | finite => rfl

end Texts

/-- The texts that a setting may have. -/
def Setting.Admits (setting : Setting) (text : String) : Prop :=
  match setting with
  | .logFilter => True
  | .verbose => ∃ value, BooleanText text value
  | .maxIterations => ∃ count, IterationsText text count
  | .timeLimit => ∃ limit, PositiveText true text limit
  | .absoluteGap | .relativeGap => ∃ gap, PositiveText false text gap

namespace Configuration

section Environments

variable {environment : Environment} {setting : Setting} {text : String}

/-- The environment has this text for the setting, up to white space around it. -/
def Gives (environment : Environment) (setting : Setting) (text : String) : Prop :=
  ∃ raw, environment setting.key = some raw ∧ Trims raw.toList text.toList ∧ text ≠ ""

/-- What the text of the setting means, or else the value that holds without one. -/
def Chosen {α : Type} (environment : Environment) (setting : Setting) (Means : String → α → Prop)
    (default value : α) : Prop :=
  (∃ text, Gives environment setting text ∧ Means text value) ∨
    (∀ text, ¬Gives environment setting text) ∧ value = default

theorem trim_eq_iff {raw : String} : trim raw = text ↔ Trims raw.toList text.toList := by
  rw [← trimmed_eq_iff, trim, ← String.toList_inj, String.toList_ofList]

theorem valueOf?_eq_some_iff :
    valueOf? environment setting = some text ↔ Gives environment setting text := by
  simp only [valueOf?, Option.filter_eq_some_iff, Option.map_eq_some_iff, trim_eq_iff,
    decide_eq_true_eq, Gives]
  constructor
  · rintro ⟨⟨raw, given, trims⟩, nonempty⟩
    exact ⟨raw, given, trims, nonempty⟩
  · rintro ⟨raw, given, trims, nonempty⟩
    exact ⟨⟨raw, given, trims⟩, nonempty⟩

theorem valueOf?_eq_none_iff :
    valueOf? environment setting = none ↔ ∀ text, ¬Gives environment setting text := by
  simp only [← valueOf?_eq_some_iff, Option.eq_none_iff_forall_ne_some, ne_eq]

theorem valueOf?_eq (environment : Environment) (setting : Setting) :
    valueOf? environment setting =
      (some (trim ((environment setting.key).getD ""))).filter (· ≠ "") := by
  rw [valueOf?]
  cases environment setting.key with
  | none => rfl
  | some raw => rfl

variable {α : Type} {reader : String → Except SettingFault α} {Means : String → α → Prop}
  {default value : α}

theorem read_eq_ok_iff (reads : ∀ text value, reader text = .ok value ↔ Means text value) :
    read environment setting default reader = .ok value ↔
      Chosen environment setting Means default value := by
  rw [read, Chosen, ← valueOf?_eq_none_iff]
  simp only [← valueOf?_eq_some_iff, ← reads]
  cases valueOf? environment setting with
  | none => simp [eq_comm]
  | some text => simp [mapError_eq_ok_iff]

/-- The setting has no text, or one that it admits. -/
def Respects (environment : Environment) (setting : Setting) : Prop :=
  ∀ text, Gives environment setting text → setting.Admits text

theorem respects_iff (admits : ∀ text, setting.Admits text ↔ ∃ value, reader text = .ok value) :
    Respects environment setting ↔
      ∃ value, read environment setting default reader = .ok value := by
  simp only [Respects, ← valueOf?_eq_some_iff, admits, read]
  cases valueOf? environment setting with
  | none => simp
  | some text => simp [mapError_eq_ok_iff]

theorem read_eq_error_iff {refused : Setting}
    (admits : ∀ text, setting.Admits text ↔ ∃ value, reader text = .ok value) :
    (∃ cause, read environment setting default reader = .error ⟨refused, text, cause⟩) ↔
      refused = setting ∧ Gives environment setting text ∧ ¬setting.Admits text := by
  simp only [← valueOf?_eq_some_iff, admits, read]
  cases valueOf? environment setting with
  | none => simp
  | some given =>
      simp only [mapError_eq_error_iff, ConfigurationFault.mk.injEq, Option.some.injEq]
      constructor
      · rintro ⟨cause, reason, failed, rfl, rfl, -⟩
        exact ⟨rfl, rfl, by simp [failed]⟩
      · rintro ⟨rfl, rfl, notRead⟩
        cases failed : reader given with
        | ok value => exact absurd ⟨value, failed⟩ notRead
        | error cause => exact ⟨cause, cause, rfl, rfl, rfl, rfl⟩

/-- The first setting of the order that has a text it does not admit, and the text. -/
def FirstRefused (environment : Environment) (order : List Setting) (setting : Setting)
    (text : String) : Prop :=
  ∃ before after, order = before ++ setting :: after ∧
    (∀ earlier ∈ before, Respects environment earlier) ∧
      Gives environment setting text ∧ ¬setting.Admits text

theorem firstRefused_cons_iff {order : List Setting} {refused : Setting} :
    FirstRefused environment (setting :: order) refused text ↔
      (refused = setting ∧ Gives environment setting text ∧ ¬setting.Admits text) ∨
        Respects environment setting ∧ FirstRefused environment order refused text := by
  constructor
  · rintro ⟨_ | ⟨first, before⟩, after, split, respected, refusal⟩
    · rw [List.nil_append, List.cons.injEq] at split
      exact .inl ⟨split.1.symm, split.1 ▸ refusal⟩
    · rw [List.cons_append, List.cons.injEq] at split
      rw [List.forall_mem_cons] at respected
      exact .inr ⟨split.1 ▸ respected.1, before, after, split.2, respected.2, refusal⟩
  · rintro (⟨rfl, refusal⟩ | ⟨respected, before, after, rfl, others, refusal⟩)
    · exact ⟨[], order, rfl, nofun, refusal⟩
    · exact ⟨setting :: before, after, rfl, List.forall_mem_cons.2 ⟨respected, others⟩, refusal⟩

/-- The outcome of going through the settings in this order. -/
structure Follows (environment : Environment) (order : List Setting)
    (outcome : Except ConfigurationFault α) : Prop where
  succeeds : (∃ result, outcome = .ok result) ↔
    ∀ setting ∈ order, Respects environment setting
  refuses : ∀ setting text, (∃ cause, outcome = .error ⟨setting, text, cause⟩) ↔
    FirstRefused environment order setting text

theorem Follows.done (result : α) :
    Follows environment [] (pure result : Except ConfigurationFault α) where
  succeeds := ⟨fun _ => nofun, fun _ => ⟨result, rfl⟩⟩
  refuses setting text := by
    constructor
    · exact fun ⟨_, failed⟩ => nomatch failed
    · exact fun ⟨before, _, split, _⟩ => absurd split.symm (by simp)

/-- Going through the settings stops at the first one that is refused, and otherwise goes on with
whatever value was read. -/
theorem Follows.step {β : Type} {order : List Setting} {next : α → Except ConfigurationFault β}
    (admits : ∀ text, setting.Admits text ↔ ∃ value, reader text = .ok value)
    (rest : ∀ value, Follows environment order (next value)) :
    Follows environment (setting :: order)
      (read environment setting default reader >>= next) where
  succeeds := by
    have respects : Respects environment setting ↔
        ∃ value, read environment setting default reader = .ok value := respects_iff admits
    rw [List.forall_mem_cons, respects]
    simp only [bind_eq_ok_iff]
    constructor
    · rintro ⟨result, value, readValue, done⟩
      exact ⟨⟨value, readValue⟩, (rest value).succeeds.1 ⟨result, done⟩⟩
    · rintro ⟨⟨value, readValue⟩, respected⟩
      rcases (rest value).succeeds.2 respected with ⟨result, done⟩
      exact ⟨result, value, readValue, done⟩
  refuses refused text := by
    have respects : Respects environment setting ↔
        ∃ value, read environment setting default reader = .ok value := respects_iff admits
    have refusal : (∃ cause, read environment setting default reader =
          .error ⟨refused, text, cause⟩) ↔
        refused = setting ∧ Gives environment setting text ∧ ¬setting.Admits text :=
      read_eq_error_iff admits
    rw [firstRefused_cons_iff, ← refusal, respects]
    simp only [bind_eq_error_iff, exists_or]
    refine or_congr_right ?_
    constructor
    · rintro ⟨cause, value, readValue, failed⟩
      exact ⟨⟨value, readValue⟩, ((rest value).refuses refused text).1 ⟨cause, failed⟩⟩
    · rintro ⟨⟨value, readValue⟩, refusal⟩
      rcases ((rest value).refuses refused text).2 refusal with ⟨cause, failed⟩
      exact ⟨cause, value, readValue, failed⟩

end Environments

section Outcome

variable {environment : Environment}

def order : List Setting :=
  [.logFilter, .verbose, .maxIterations, .timeLimit, .absoluteGap, .relativeGap]

/-- Every field of the configuration is what its own setting says. -/
structure IsConfigured (environment : Environment) (configuration : Configuration) : Prop where
  logFilter : Chosen environment .logFilter Eq "info" configuration.logFilter
  verbose : Chosen environment .verbose BooleanText false configuration.settings.verbose
  maxIterations : Chosen environment .maxIterations IterationsText 200
    configuration.settings.maxIterations
  timeLimit : Chosen environment .timeLimit (PositiveText true) (1 / 0)
    configuration.settings.timeLimit
  absoluteGap : Chosen environment .absoluteGap (PositiveText false) 1e-8
    configuration.settings.absoluteGap
  relativeGap : Chosen environment .relativeGap (PositiveText false) 1e-8
    configuration.settings.relativeGap

theorem follows_ofEnvironment (environment : Environment) :
    Follows environment order (ofEnvironment environment) := by
  apply Follows.step
  case admits => exact fun text => ⟨fun _ => ⟨text, rfl⟩, fun _ => trivial⟩
  intro logFilter
  apply Follows.step
  case admits => exact fun text => exists_congr fun _ => readBool_eq_ok_iff.symm
  intro verbose
  apply Follows.step
  case admits => exact fun text => exists_congr fun _ => readIterations_eq_ok_iff.symm
  intro maxIterations
  apply Follows.step
  case admits => exact fun text => exists_congr fun _ => readPositive_eq_ok_iff.symm
  intro timeLimit
  apply Follows.step
  case admits => exact fun text => exists_congr fun _ => readPositive_eq_ok_iff.symm
  intro absoluteGap
  apply Follows.step
  case admits => exact fun text => exists_congr fun _ => readPositive_eq_ok_iff.symm
  intro relativeGap
  exact Follows.done _

theorem ofEnvironment_eq_ok_iff {configuration : Configuration} :
    ofEnvironment environment = .ok configuration ↔ IsConfigured environment configuration := by
  have readsFilter (text filter : String) :
      (Except.ok text : Except SettingFault String) = .ok filter ↔ text = filter := by
    rw [Except.ok.injEq]
  simp only [ofEnvironment, bind_eq_ok_iff, pure_eq_ok_iff, read_eq_ok_iff readsFilter,
    read_eq_ok_iff fun _ _ => readBool_eq_ok_iff,
    read_eq_ok_iff fun _ _ => readIterations_eq_ok_iff,
    read_eq_ok_iff fun _ _ => readPositive_eq_ok_iff]
  constructor
  · rintro ⟨_, filter, _, verbose, _, iterations, _, limit, _, absolute, _, relative, rfl⟩
    exact ⟨filter, verbose, iterations, limit, absolute, relative⟩
  · rintro ⟨filter, verbose, iterations, limit, absolute, relative⟩
    exact ⟨_, filter, _, verbose, _, iterations, _, limit, _, absolute, _, relative, rfl⟩

/-- What holds of the default and of what every text means holds of the value. -/
theorem Chosen.holds {α : Type} {setting : Setting} {Means : String → α → Prop}
    {default value : α} (Property : α → Prop)
    (chosen : Chosen environment setting Means default value)
    (ofText : ∀ text, text ≠ "" → Means text value → Property value)
    (ofDefault : Property default) : Property value := by
  rcases chosen with ⟨text, ⟨_, _, _, nonempty⟩, meaning⟩ | ⟨_, rfl⟩
  · exact ofText text nonempty meaning
  · exact ofDefault

/-- What the solver relies on. -/
structure Usable (configuration : Configuration) : Prop where
  logFilter : configuration.logFilter ≠ ""
  timeLimit : 0 < configuration.settings.timeLimit ∧
    configuration.settings.timeLimit.isNaN = false
  absoluteGap : 0 < configuration.settings.absoluteGap ∧
    configuration.settings.absoluteGap.isFinite = true
  relativeGap : 0 < configuration.settings.relativeGap ∧
    configuration.settings.relativeGap.isFinite = true

theorem Chosen.positive {setting : Setting} {value : Float}
    (chosen : Chosen environment setting (PositiveText false) 1e-8 value) :
    0 < value ∧ value.isFinite = true :=
  chosen.holds (fun value => 0 < value ∧ value.isFinite = true)
    (fun _ _ meaning => ⟨meaning.2.1, meaning.2.2 rfl⟩) (by decide)

theorem IsConfigured.usable {configuration : Configuration}
    (configured : IsConfigured environment configuration) : configuration.Usable where
  logFilter := configured.logFilter.holds (· ≠ "") (fun _ nonempty same => same ▸ nonempty)
    (by decide)
  timeLimit := configured.timeLimit.holds (fun limit => 0 < limit ∧ limit.isNaN = false)
    (fun _ _ meaning => ⟨meaning.2.1, isNaN_of_pos meaning.2.1⟩) (by decide)
  absoluteGap := configured.absoluteGap.positive
  relativeGap := configured.relativeGap.positive

theorem ofEnvironment_congr {environment other : Environment}
    (same : ∀ setting : Setting, trim ((other setting.key).getD "") =
      trim ((environment setting.key).getD "")) :
    ofEnvironment other = ofEnvironment environment := by
  have sameValues (setting : Setting) :
      valueOf? other setting = valueOf? environment setting := by
    rw [valueOf?_eq, valueOf?_eq, same setting]
  simp only [ofEnvironment, read, sameValues]

/-- Only trimmed values count, every field is what its own setting says, and if that is not possible
for all fields, the first setting in the way is reported with its text. -/
theorem ofEnvironment_settings (environment : Environment) :
    (∀ other : Environment,
      (∀ setting : Setting, trim ((other setting.key).getD "") =
        trim ((environment setting.key).getD "")) →
      ofEnvironment other = ofEnvironment environment) ∧
    (∀ configuration, ofEnvironment environment = .ok configuration ↔
      IsConfigured environment configuration) ∧
    ((∃ configuration, ofEnvironment environment = .ok configuration) ↔
      ∀ setting, Respects environment setting) ∧
    (∀ setting text, (∃ cause, ofEnvironment environment = .error ⟨setting, text, cause⟩) ↔
      FirstRefused environment order setting text) ∧
    ∀ configuration, ofEnvironment environment = .ok configuration → configuration.Usable := by
  have follows := follows_ofEnvironment environment
  have every (setting : Setting) : setting ∈ order := by
    cases setting <;> decide
  refine ⟨fun other => ofEnvironment_congr, fun _ => ofEnvironment_eq_ok_iff, ?_, follows.refuses,
    fun _ done => (ofEnvironment_eq_ok_iff.1 done).usable⟩
  rw [follows.succeeds]
  exact forall_congr' fun setting => forall_prop_of_true (every setting)

/-- Padded and blank values, a gap that is too small for a double, and one that is no number. -/
def paddedEnvironment : Environment
  | "CVX_REASONER_VERBOSE" => some " Yes\t"
  | "CVX_REASONER_MAX_ITER" => some " \n"
  | "CVX_REASONER_TIME_LIMIT" => some "+Infinity "
  | "CVX_REASONER_TOL_GAP_ABS" => some "\u00a01e-400"
  | "CVX_REASONER_TOL_GAP_REL" => some "wide"
  | _ => none

def plainEnvironment : Environment
  | "CVX_REASONER_VERBOSE" => some "Yes"
  | "CVX_REASONER_TIME_LIMIT" => some "+Infinity"
  | "CVX_REASONER_TOL_GAP_ABS" => some "1e-400"
  | "CVX_REASONER_TOL_GAP_REL" => some "wide"
  | _ => none

theorem ofEnvironment_settings_padded :
    FirstRefused paddedEnvironment order .absoluteGap "1e-400" ∧
      ofEnvironment plainEnvironment = ofEnvironment paddedEnvironment := by
  have settings := ofEnvironment_settings paddedEnvironment
  constructor
  · refine (settings.2.2.2.1 .absoluteGap "1e-400").1 ⟨.outOfRange, ?_⟩
    have refused : (match ofEnvironment paddedEnvironment with
      | .ok _ => none
      | .error fault => some fault) = some ⟨.absoluteGap, "1e-400", .outOfRange⟩ := by
      decide +kernel
    split at refused
    case h_1 => cases refused
    case h_2 fault failed => rw [failed, Option.some.inj refused]
  · apply settings.1
    intro setting
    cases setting <;> decide +kernel

end Outcome

end Configuration

end HingeLoss
