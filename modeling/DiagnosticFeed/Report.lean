import DiagnosticFeed.Distinct
import DiagnosticFeed.Message
import DiagnosticFeed.Settings.Json

/-!
# Reports

A set of messages is shown as text, with a block for each file and a summary,
or as JSON.
-/

namespace DiagnosticFeed

inductive Format where
  | text
  | json
deriving DecidableEq

/-- Text followed by blanks up to a width in characters. -/
def padBehind (width : Nat) (s : String) : String :=
  s ++ String.ofList (List.replicate (width - s.length) ' ')

/-- Text behind blanks up to a width in characters. -/
def padBefore (width : Nat) (s : String) : String :=
  String.ofList (List.replicate (width - s.length) ' ') ++ s

structure Tally where
  errors : Nat
  warnings : Nat
  infos : Nat
deriving DecidableEq

namespace Tally

def ofMessages (messages : List Message) : Tally where
  errors := messages.countP (·.severity = .error)
  warnings := messages.countP (·.severity = .warning)
  infos := messages.countP (·.severity = .info)

/-- A number of things, with the plural's ending unless it is one. -/
def counted (n : Nat) (thing ending : String) : String :=
  n.repr ++ " " ++ thing ++ if n = 1 then "" else ending

def summary (t : Tally) (files : Nat) : String :=
  let part := fun (n : Nat) (thing : String) =>
    if n = 0 then [] else [counted n thing "s"]
  match part t.errors "error" ++ part t.warnings "warning" ++ part t.infos "info" with
  | [] => "No problems found in " ++ files.repr ++ " file(s)"
  | parts => ", ".intercalate parts ++ " in " ++ counted files "file" "s"

end Tally

namespace Message

/-- A message as a line of text.  Its position counts from one. -/
def line (m : Message) : String :=
  "  " ++ (m.span.start.row + 1).toNat.repr ++ ":" ++
    (m.span.start.column + 1).toNat.repr ++ "  " ++ padBehind 7 m.severity.name ++
    "  " ++ m.excerpt ++ "\n"

/-- The files that messages are about, in the order of their first messages. -/
def files (messages : List Message) : List String := distinct (messages.map (·.file))

def block (messages : List Message) (file : String) : String :=
  file ++ "\n" ++ String.join ((messages.filter (·.file = file)).map line)

/-- Messages as text: the blocks of their files with empty lines between them,
and a summary. -/
def report (messages : List Message) : String :=
  let files := files messages
  "\n".intercalate (files.map (block messages)) ++
    (if files.isEmpty then "" else "\n") ++
    (Tally.ofMessages messages).summary files.length

def toJson (m : Message) : Json :=
  .record
    [("severity", m.severity.toJson),
     ("excerpt", .string m.excerpt),
     ("location", .record [("file", .string m.file), ("position", m.span.toJson)])]

def reportJson (messages : List Message) : String :=
  (Json.array (messages.map toJson)).compact

end Message

end DiagnosticFeed
