import DiagnosticFeed.Json.Sorted
import DiagnosticFeed.Log.Transcript
import DiagnosticFeed.Report

/-!
# Transcripts as text

A transcript is shown as text with a heading over each entry, or as JSON with
one object on a line and the members of every object in the order of their
keys.
-/

namespace DiagnosticFeed.Log

namespace Entry

def heading (title : String) : String := "== " ++ title ++ " ==\n"

def issueLine (d : Diagnostic) : String :=
  "  " ++ d.locations.1.line.toNat.repr ++ ":" ++ d.locations.1.offset.toNat.repr ++
    "  " ++ padBehind 10 d.category.name ++ "  " ++ padBefore 5 d.code.text ++
    "  " ++ d.text ++ "\n"

def text : Entry → String
  | publication number messages =>
    heading ("publish " ++ number.repr) ++ Message.report messages ++ "\n\n"
  | found file issues =>
    heading ("query " ++ file ++ ": " ++ Tally.counted issues.length "match" "es") ++
      String.join (issues.map issueLine) ++ "\n"
  | triggered trigger files =>
    heading ("triggered by " ++ trigger ++ ": " ++ Tally.counted files.length "file" "s") ++
      String.join (files.map fun file => "  " ++ file.text ++ "\n") ++ "\n"

def toJson : Entry → Json
  | publication number messages =>
    .record
      [("type", .string "publish"), ("seq", .natural number),
       ("messages", .array (messages.map Message.toJson))]
  | found file issues =>
    .record
      [("type", .string "query"), ("file", .string file),
       ("diagnostics", .array (issues.map Diagnostic.toJson))]
  | triggered trigger files =>
    .record
      [("type", .string "triggered"), ("triggerFile", .string trigger),
       ("files", .strings (files.map (·.text)))]

def rendered (format : Format) (e : Entry) : String :=
  match format with
  | .text => e.text
  | .json => e.toJson.sorted.compact ++ "\n"

end Entry

def Transcript.rendered (format : Format) (t : Transcript) : String :=
  String.join (t.entries.map (Entry.rendered format))

end DiagnosticFeed.Log
