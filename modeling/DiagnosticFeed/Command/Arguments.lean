import DiagnosticFeed.Report

/-!
# Command-line arguments

`Request.parse` reads the arguments of the program.  Each command has its own
options, which are listed as rules: an option is given by its long or its short
name, and its value stands behind an equals sign, directly behind the short
name, or in the next argument unless that starts with a dash.
-/

namespace DiagnosticFeed.Command

inductive Refusal where
  | usage
  | help
deriving DecidableEq

/-! ## Options -/

/-- How an option changes the options that are given so far.  It is refused if
there is no result, which is so when it was given before. -/
inductive Effect (α : Type) where
  | flag (set : α → Option α)
  | value (set : String → α → Option α)

structure Rule (α : Type) where
  long : List Char
  short : Option Char
  effect : Effect α

/-- Whether an argument is an option rather than a value. -/
def isOption (arg : String) : Bool :=
  match arg.toList with
  | '-' :: _ :: _ => true
  | _ => false

inductive Reading (α : Type) where
  | done (given : α)
  /-- The option's value is in the next argument. -/
  | pending (set : String → α → Option α)
  | refused (why : Refusal)

namespace Reading

variable {α : Type}

def ofResult : Option α → Reading α
  | some given => done given
  | none => refused .usage

/-- Read an option behind its long name.  Its value may follow an equals
sign. -/
def long (rules : List (Rule α)) (given : α) (text : List Char) : Reading α :=
  let name := text.takeWhile (· ≠ '=')
  match rules.find? (·.long = name), text.dropWhile (· ≠ '=') with
  | some ⟨_, _, .flag set⟩, [] => ofResult (set given)
  | some ⟨_, _, .flag _⟩, _ => refused .usage
  | some ⟨_, _, .value set⟩, [] => pending set
  | some ⟨_, _, .value set⟩, _ :: value => ofResult (set (String.ofList value) given)
  | none, rest => refused (if name = "help".toList ∧ rest = [] then .help else .usage)

/-- Read an option behind its short name.  Its value may follow directly. -/
def short (rules : List (Rule α)) (given : α) (name : Char) (rest : List Char) :
    Reading α :=
  match rules.find? (·.short = some name), rest with
  | some ⟨_, _, .flag set⟩, [] => ofResult (set given)
  | some ⟨_, _, .flag _⟩, _ => refused .usage
  | some ⟨_, _, .value set⟩, [] => pending set
  | some ⟨_, _, .value set⟩, '=' :: value => ofResult (set (String.ofList value) given)
  | some ⟨_, _, .value set⟩, value => ofResult (set (String.ofList value) given)
  | none, _ => refused (if name = 'h' then .help else .usage)

def argument (rules : List (Rule α)) (given : α) (arg : String) : Reading α :=
  match arg.toList with
  | '-' :: '-' :: name => long rules given name
  | '-' :: name :: rest => short rules given name rest
  | _ => refused .usage

end Reading

/-- Read the options of a command.  Two dashes end the options, and nothing may
follow them. -/
def readOptions {α : Type} (rules : List (Rule α)) (given : α) :
    List String → Except Refusal α
  | [] => .ok given
  | arg :: rest =>
    if arg = "--" then if rest = [] then .ok given else .error .usage
    else
      match Reading.argument rules given arg with
      | .done given => readOptions rules given rest
      | .refused why => .error why
      | .pending set =>
        match rest with
        | [] => .error .usage
        | value :: rest =>
          if isOption value then .error .usage
          else
            match set value given with
            | some given => readOptions rules given rest
            | none => .error .usage

def once {α β : Type} (value : Option β) (before : Option β) (set : β → α) : Option α :=
  match before, value with
  | none, some b => some (set b)
  | _, _ => none

/-- A path on the command line, which is not empty. -/
def toPath? (s : String) : Option String := if s = "" then none else some s

/-- A number of 64 bits on the command line: digits, with a plus sign in front
of them at will. -/
def toUInt64? (s : String) : Option UInt64 :=
  let cs := match s.toList with
    | '+' :: cs => cs
    | cs => cs
  if cs = [] ∨ ¬cs.all Char.isDigit then none
  else
    let n := Json.ofDigits cs
    if n < UInt64.size then some (UInt64.ofNat n) else none

/-! ## Commands -/

structure ReplayOptions where
  input : Option String
  format : Option String
  delay : Option UInt64
  settingsFile : Option String
  debug : Option Unit

namespace ReplayOptions

def none : ReplayOptions := ⟨.none, .none, .none, .none, .none⟩

def rules : List (Rule ReplayOptions) :=
  [⟨"input".toList, some 'i', .value fun s o =>
      once (toPath? s) o.input fun v => { o with input := some v }⟩,
   ⟨"format".toList, some 'f', .value fun s o =>
      once (some s) o.format fun v => { o with format := some v }⟩,
   ⟨"debounce-ms".toList, .none, .value fun s o =>
      once (toUInt64? s) o.delay fun v => { o with delay := some v }⟩,
   ⟨"config".toList, some 'c', .value fun s o =>
      once (toPath? s) o.settingsFile fun v => { o with settingsFile := some v }⟩,
   ⟨"debug".toList, .none, .flag fun o =>
      once (some ()) o.debug fun v => { o with debug := some v }⟩]

/-- The format that is asked for by name; any other name stands for text. -/
def outputFormat (o : ReplayOptions) : Format :=
  if o.format = some "json" then .json else .text

end ReplayOptions

structure ConfigOptions where
  schema : Option Unit
  settingsFile : Option String

namespace ConfigOptions

def none : ConfigOptions := ⟨.none, .none⟩

def rules : List (Rule ConfigOptions) :=
  [⟨"schema".toList, .none, .flag fun o =>
      once (some ()) o.schema fun v => { o with schema := some v }⟩,
   ⟨"config".toList, some 'c', .value fun s o =>
      once (toPath? s) o.settingsFile fun v => { o with settingsFile := some v }⟩]

end ConfigOptions

inductive Request where
  | version
  | replay (options : ReplayOptions)
  | config (options : ConfigOptions)

def commandNames : List String := ["replay", "maestro", "config", "help"]

/-- Why the help command does not lead to a command.  It is asked about the
program or about one command. -/
def helpOn : List String → Refusal
  | [] => .help
  | [topic] => if topic ∈ commandNames then .help else .usage
  | _ => .usage

def Request.parse : List String → Except Refusal Request
  | [] => .error .usage
  | "--version" :: _ => .ok .version
  | "--help" :: _ => .error .help
  | "help" :: topics => .error (helpOn topics)
  | "replay" :: args => (readOptions ReplayOptions.rules .none args).map .replay
  | "maestro" :: args => (readOptions ReplayOptions.rules .none args).map .replay
  | "config" :: args => (readOptions ConfigOptions.rules .none args).map .config
  | arg :: _ =>
    match arg.toList with
    | '-' :: 'v' :: _ => .ok .version
    | '-' :: 'V' :: _ => .ok .version
    | '-' :: 'h' :: _ => .error .help
    | _ => .error .usage

end DiagnosticFeed.Command
