import CallBridge.Fault
import CallBridge.Text.Decimal

/-!
# Log settings

Levels are named without regard to the case of ASCII letters, or by the numbers one to five.

In the media core, `Config` is `LoggingConfig`, `install` is `setup_logging`, and `Level.parse` is
`parse_log_level`.

Results:
* `Level.parse_name`: a level is found by its name.
-/

namespace CallBridge.Logging

/-- How much is logged. -/
inductive Level where
  | error
  | warn
  | info
  | debug
  | trace
deriving DecidableEq, Repr, Inhabited

namespace Level

/-- The levels in the order of their numbers, from one on. -/
def all : List Level := [error, warn, info, debug, trace]

/-- The name of a level in upper case. -/
def name : Level → String
  | error => "ERROR"
  | warn => "WARN"
  | info => "INFO"
  | debug => "DEBUG"
  | trace => "TRACE"

/-- The name of a level in lower case. -/
def lowerName : Level → String
  | error => "error"
  | warn => "warn"
  | info => "info"
  | debug => "debug"
  | trace => "trace"

/-- The level with a number. -/
def ofNumber? : Nat → Option Level
  | 0 => none
  | n + 1 => all[n]?

/-- The level with a name, in any case. -/
def ofName? (text : String) : Option Level :=
  let word := String.ofList (text.toList.map Char.toLower)
  all.find? (·.lowerName = word)

/-- The level that a text stands for. -/
def parse (text : String) : Outcome Level :=
  let found := match Text.Decimal.read? UInt64.size text.toList with
    | some n => ofNumber? n
    | none => ofName? text
  match found with
  | some level => .ok level
  | none => .error (.settings ("Invalid log level: " ++ text))

theorem parse_name (l : Level) : parse l.name = .ok l := by
  cases l <;> rfl

end Level

/-- What is logged and how. -/
structure Config where
  level : String
  json : Bool
  fileInfo : Bool
  spans : Bool
  appName : String
deriving DecidableEq, Repr, Inhabited

namespace Config

/-- The settings in effect where nothing else is said. -/
def standard : Config := ⟨"info", false, false, false, "b2bmedia"⟩

/-- The settings for a level and an application. -/
def ofLevel (level : Level) (appName : String) : Config :=
  { standard with level := level.lowerName, appName }

/-- Sets up the log, once; `installed` tells whether that was done before. -/
def install (c : Config) (installed : Bool) : Outcome Unit :=
  match Level.parse c.level with
  | .error f => .error f
  | .ok _ =>
    if installed then .error (.logging "a global default trace dispatcher has already been set")
    else .ok ()

end Config

end CallBridge.Logging
