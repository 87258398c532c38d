import DiagnosticFeed.Feed
import DiagnosticFeed.Json.Pretty
import DiagnosticFeed.Settings.Json
import DiagnosticFeed.Text.File

/-!
# Settings files

A settings file holds the settings and the delay for replays, and may name the
schema that it follows.  A file that cannot be read or does not hold a settings
document stands for the standard one.
-/

namespace DiagnosticFeed

/-! ## Settings alone -/

namespace Settings

inductive LoadError where
  | unreadable (path : String) (error : ReadError)
  | malformed
deriving DecidableEq

def load (path : String) : Except ReadError String → Except LoadError Settings
  | .error e => .error (.unreadable path e)
  | .ok text =>
    match ofText? text with
    | some settings => .ok settings
    | none => .error .malformed

end Settings

/-! ## Settings documents -/

structure SettingsDocument where
  schema : Option String
  settings : Settings
  /-- The delay for replays in milliseconds. -/
  delay : Option UInt64
deriving DecidableEq

namespace SettingsDocument

def standard : SettingsDocument := ⟨none, .standard, none⟩

def replayToJson (delay : Option UInt64) : Json :=
  .record (Json.knownMember "debounceMs" (fun ms => .natural ms.toNat) delay)

def replayOfJson? (v : Json) : Option (Option UInt64) := do
  let r ← v.record? ["debounceMs"]
  r.omissible "debounceMs" Json.toUInt64?

def toJson (d : SettingsDocument) : Json :=
  .record <|
    Json.knownMember "$schema" Json.string d.schema ++
      [("diagnostics", d.settings.toJson), ("replay", replayToJson d.delay)]

def ofJson? (v : Json) : Option SettingsDocument := do
  let r ← v.record? ["$schema", "diagnostics", "replay"]
  let schema ← r.omissible "$schema" Json.toText?
  let settings ← r.orElse "diagnostics" Settings.ofJson? .standard
  let delay ← r.orElse "replay" replayOfJson? none
  return { schema, settings, delay }

def ofText? (text : String) : Option SettingsDocument := (Json.parse? text).bind ofJson?

def toText (d : SettingsDocument) : String := d.toJson.pretty .tall

inductive Warning where
  | unreadable (path : String) (error : ReadError)
  | malformed (path : String)
deriving DecidableEq

/-- A warning as a line of text, with its first word in yellow. -/
def Warning.message : Warning → String
  | unreadable path e => "\x1b[33mWarning:\x1b[0m Failed to read " ++ path ++ ": " ++ e.message
  | malformed path => "\x1b[33mWarning:\x1b[0m Failed to parse " ++ path

/-- The document in a file, given what reading it gave, and the warning if it
is not the file's own. -/
def load (path : String) : Except ReadError String → SettingsDocument × Option Warning
  | .error e => (standard, some (.unreadable path e))
  | .ok text =>
    match ofText? text with
    | some d => (d, none)
    | none => (standard, some (.malformed path))

end SettingsDocument

end DiagnosticFeed
