import DiagnosticFeed.Command.Arguments
import DiagnosticFeed.Command.Environment
import DiagnosticFeed.Log.Rendering
import DiagnosticFeed.Settings.Schema

/-!
# Running commands

`Command.run` is the program as a function from its arguments and surroundings
to what it writes and the code that it ends with.
-/

namespace DiagnosticFeed.Command

structure Exit where
  code : UInt32
  output : String
  complaints : List String

/-- What is written to standard error: the complaints, each with a line feed
behind it. -/
def Exit.errorOutput (e : Exit) : String := String.join (e.complaints.map (· ++ "\n"))

/-- The file that settings are read from where no other is named. -/
def settingsFileName : String := "tessera.config.json"

def pathIn (directory name : String) : String :=
  if directory.toList.getLast? = some '/' then directory ++ name
  else directory ++ "/" ++ name

def settingsPath (directory : String) (named : Option String) : String :=
  named.getD (pathIn directory settingsFileName)

/-- The settings document for a command.  A file that is not named may be
missing. -/
def loadDocument (env : Environment) (named : Option String) :
    SettingsDocument × Option SettingsDocument.Warning :=
  let path := settingsPath env.directory named
  match env.read path with
  | .error e =>
    if named.isNone ∧ e.isAbsence then (.standard, none)
    else SettingsDocument.load path (.error e)
  | content => SettingsDocument.load path content

/-- The settings for a replay: without project roots, the directory is one. -/
def replaySettings (env : Environment) (settings : Settings) : Settings :=
  if settings.projectRoots.isEmpty then { settings with projectRoots := [env.directory] }
  else settings

def readLog (env : Environment) : Option String → Except String String
  | none => .ok env.input
  | some path => (env.read path).mapError (·.complaint path)

/-- Replay a log, which is read after the settings. -/
def replay (env : Environment) (options : ReplayOptions) : Exit :=
  let (document, warning) := loadDocument env options.settingsFile
  let complaints := (warning.map (·.message)).toList
  let delay := (options.delay <|> document.delay).map UInt64.toNat
  match readLog (env.after (settingsPath env.directory options.settingsFile)) options.input with
  | .error complaint => ⟨1, "", complaints ++ [complaint]⟩
  | .ok log =>
    let transcript := Log.Transcript.ofLog (replaySettings env document.settings)
      (delay.getD Feed.standardDelay) log
    let output := transcript.rendered options.outputFormat
    match transcript.stoppedAt with
    | none => ⟨0, output, complaints⟩
    | some line =>
      ⟨1, output, complaints ++ ["Replay failed: line " ++ line.repr ++ ": invalid event"]⟩

def config (env : Environment) (options : ConfigOptions) : Exit :=
  if options.schema.isSome then ⟨0, SettingsDocument.schemaText ++ "\n", []⟩
  else
    let (document, warning) := loadDocument env options.settingsFile
    ⟨0, document.toText ++ "\n", (warning.map (·.message)).toList⟩

def versionText : String := "tessera 0.3.0"

def helpText : String :=
  "Diagnostic aggregation and publication toolkit\n\n" ++
    "Usage: tessera <replay | config> [OPTIONS]\n"

def Request.run (env : Environment) : Request → Exit
  | version => ⟨0, versionText ++ "\n", []⟩
  | replay options => Command.replay env options
  | config options => Command.config env options

def run (env : Environment) (args : List String) : Exit :=
  match Request.parse args with
  | .ok request => request.run env
  | .error .help => ⟨0, helpText, []⟩
  | .error .usage => ⟨2, "", [helpText]⟩

def pathsRead (directory : String) (args : List String) : List String :=
  match Request.parse args with
  | .ok (.replay options) => settingsPath directory options.settingsFile :: options.input.toList
  | .ok (.config options) =>
    if options.schema.isSome then [] else [settingsPath directory options.settingsFile]
  | _ => []

def readsInput (directory : String) (args : List String) : Bool :=
  (pathsRead directory args).any (· ∈ inputPaths) ||
    match Request.parse args with
    | .ok (.replay options) => options.input.isNone
    | _ => false

end DiagnosticFeed.Command
