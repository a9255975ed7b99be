import HingeLoss.Log.Event

/-!
# Log filters

A filter is a list of directives separated by commas. A directive is a level, or the path of a part
of the program with or without a level. An event is shown if the directive that fits it best, which
is the one with the longest path that its origin begins with, lets its level pass.
-/

namespace HingeLoss

/-- The least important level that passes; `none` lets nothing pass. -/
abbrev LevelLimit := Option LogLevel

namespace LevelLimit

/-- The limit that a word names: a level in any mix of upper and lower case, or its number. -/
def ofWord? (word : String) : Option LevelLimit :=
  match String.ofList (word.toList.map Char.toLower) with
  | "off" | "0" => some none
  | "error" | "1" | "" => some (some .error)
  | "warn" | "2" => some (some .warn)
  | "info" | "3" => some (some .info)
  | "debug" | "4" => some (some .debug)
  | "trace" | "5" => some (some .trace)
  | _ => none

/-- Whether a level is at least as important as the limit. -/
def admits (limit : LevelLimit) (level : LogLevel) : Bool :=
  match limit with
  | some least => level.rank ≤ least.rank
  | none => false

end LevelLimit

/-- A directive: the path that it is about, empty for all paths, and its limit. -/
structure LogDirective where
  path : String
  limit : LevelLimit
deriving DecidableEq, Repr

namespace LogDirective

/-- Whether a directive may begin with a character. No other character of a path is checked. -/
def beginsDirective (character : Char) : Bool :=
  character = '-' || character = ':' || character = '_' || character.isAlphanum ||
    0x80 ≤ character.toNat

/-- Reads a directive. A path without a level lets everything pass. -/
def ofText? (text : String) : Option LogDirective :=
  match text.toList with
  | [] => none
  | first :: rest =>
      if !beginsDirective first then none
      else
        let characters := first :: rest
        let path := characters.takeWhile (· ≠ '=')
        match characters.dropWhile (· ≠ '=') with
        | [] =>
            match LevelLimit.ofWord? text with
            | some limit => some ⟨"", limit⟩
            | none => some ⟨text, some .trace⟩
        | _ :: level =>
            if level.isEmpty then some ⟨String.ofList path, some .trace⟩
            else (LevelLimit.ofWord? (String.ofList level)).map fun limit =>
              ⟨String.ofList path, limit⟩

/-- Whether the path of a directive is the beginning of the path of an origin. -/
def isAbout (directive : LogDirective) (origin : LogOrigin) : Bool :=
  directive.path.toList.isPrefixOf origin.path.toList

end LogDirective

/-- The directives of a filter, later ones replacing earlier ones with the same path. -/
structure LogFilter where
  directives : List LogDirective
deriving DecidableEq, Repr

namespace LogFilter

/-- The parts between the commas, without the empty ones. -/
def parts (text : String) : List String :=
  (text.toList.splitOn ',').map String.ofList |>.filter (· ≠ "")

/-- The filter of some directives; without any, errors pass. -/
def ofDirectives (directives : List LogDirective) : LogFilter :=
  if directives.isEmpty then ⟨[⟨"", some .error⟩]⟩ else ⟨directives⟩

/-- Reads a filter, all of whose directives have to be readable. -/
def ofText? (text : String) : Option LogFilter :=
  ((parts text).mapM LogDirective.ofText?).map ofDirectives

/-- Reads a filter and leaves out the directives that are not readable. -/
def ofText (text : String) : LogFilter :=
  ofDirectives ((parts text).filterMap LogDirective.ofText?)

/-- The parts of a filter that are no directives. -/
def unreadable (text : String) : List String :=
  (parts text).filter fun part => (LogDirective.ofText? part).isNone

/-- The directive with the longest path among those about an origin; of several, the last one. -/
def directiveFor? (filter : LogFilter) (origin : LogOrigin) : Option LogDirective :=
  filter.directives.foldl
    (fun best directive =>
      if directive.isAbout origin then
        match best with
        | some other =>
            if other.path.length ≤ directive.path.length then some directive else best
        | none => some directive
      else best)
    none

/-- Whether the filter lets an event pass. An event without a directive does not. -/
def admits (filter : LogFilter) (event : LogEvent) : Bool :=
  match filter.directiveFor? event.origin with
  | some directive => directive.limit.admits event.level
  | none => false

/-- The log text: one line for each event that passes. -/
def render (filter : LogFilter) (events : List LogEvent) : String :=
  String.join ((events.filter filter.admits).map fun event => event.line ++ "\n")

end LogFilter

end HingeLoss
