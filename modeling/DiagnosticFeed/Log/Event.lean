import DiagnosticFeed.Diagnostic.Json
import DiagnosticFeed.Json.Buffer
import DiagnosticFeed.Store.Mutation
import DiagnosticFeed.Text.Lines

/-!
# Event logs

An event log has one event on a line, written as JSON.  Blank lines and lines
that start with two slashes are skipped.

An event is an object with its kind under `type` and its fields beside it, or
an array with its kind in front of its fields.  It is taken into a buffer as a
whole before its fields are read, so even a part that is ignored has to fit.
-/

namespace DiagnosticFeed.Log

open Json (Record)

inductive Event where
  | report (tag : Tag) (file : String) (batch : Batch)
  | clear (selection : Selection)
  | wait (ms : UInt64)
  /-- The issues about a file are asked for: those at a point, or else those in
  a span, or else all of them. -/
  | query (file : String) (point : Option Point) (asked : Option Span)
  | triggered (trigger : String)
deriving DecidableEq

namespace Event

/-! ## The fields of each kind -/

def fieldNames? : String → Option (List String)
  | "set" => some ["tag", "file", "diagnostics", "triggerFile"]
  | "clear" => some ["projectPath", "triggerFile"]
  | "wait" => some ["ms"]
  | "query" => some ["file", "at", "range"]
  | "triggered" => some ["triggerFile"]
  | _ => none

def readReport (r : Record) : Option Event := do
  let tag ← r.required "tag" Json.toText?
  let file ← r.required "file" Json.toText?
  let diagnostics ←
    r.orElse "diagnostics" (Json.toList? (Diagnostic.ofJson? .buffered)) []
  let trigger ← r.optional "triggerFile" Json.toText?
  return .report ⟨tag⟩ file ⟨trigger, diagnostics⟩

def readClear (r : Record) : Option Event := do
  let project ← r.optional "projectPath" Json.toText?
  let trigger ← r.optional "triggerFile" Json.toText?
  return .clear ⟨project, trigger⟩

def readWait (r : Record) : Option Event :=
  (r.required "ms" Json.toUInt64?).map wait

def readQuery (r : Record) : Option Event := do
  let file ← r.required "file" Json.toText?
  let point ← r.optional "at" Point.ofJson?
  let asked ← r.optional "range" Span.ofJson?
  return .query file point asked

def readTriggered (r : Record) : Option Event :=
  (r.required "triggerFile" Json.toText?).map triggered

def ofRecord? : String → Record → Option Event
  | "set", r => readReport r
  | "clear", r => readClear r
  | "wait", r => readWait r
  | "query", r => readQuery r
  | "triggered", r => readTriggered r
  | _, _ => none

/-! ## Events in JSON -/

/-- The kind of an event, and its fields as an object or an array of their
own. -/
def kindAndFields? : Json → Option (String × Json)
  | .object ms =>
    match ms.partition fun m => m.1 = some "type" with
    | ([(_, .text (some kind))], fields) => some (kind, .object fields)
    | _ => none
  | .array (.text (some kind) :: fields) => some (kind, .array fields)
  | _ => none

def ofJson? (v : Json) : Option Event := do
  if v.isBufferable then
    let (kind, fields) ← kindAndFields? v
    let names ← fieldNames? kind
    ofRecord? kind (← fields.record? names)
  else none

def mutation? : Event → Option Mutation
  | report tag file batch => some (.report tag file batch)
  | clear selection => some (.clear selection)
  | _ => none

end Event

/-! ## Lines -/

inductive Line where
  | skipped
  | event (e : Event)
  | invalid
deriving DecidableEq

namespace Line

def isSkipped : List Char → Bool
  | [] => true
  | '/' :: '/' :: _ => true
  | _ => false

def read (line : String) : Line :=
  let text := Text.trim line.toList
  if isSkipped text then skipped
  else
    match (Json.parse? (String.ofList text)).bind Event.ofJson? with
    | some e => event e
    | none => invalid

end Line

def lines (text : String) : List Line := (Text.lines text).map Line.read

end DiagnosticFeed.Log
