import DiagnosticFeed.Diagnostic
import DiagnosticFeed.Json.Record
import DiagnosticFeed.Json.Text

/-!
# Diagnostics as JSON

Positions and diagnostics are records in JSON.  Parts of a diagnostic that are
not known are left out, and so is the mark for unnecessary code when it is not
set.
-/

namespace DiagnosticFeed

open Json (Reading)

namespace Location

def toJson (l : Location) : Json :=
  .record [("line", .natural l.line.toNat), ("offset", .natural l.offset.toNat)]

def ofJson? (v : Json) : Option Location := do
  let r ← v.record? ["line", "offset"]
  let line ← r.required "line" Json.toUInt32?
  let offset ← r.required "offset" Json.toUInt32?
  return ⟨line, offset⟩

end Location

namespace Point

def toJson (p : Point) : Json :=
  .record [("row", .natural p.row.toNat), ("column", .natural p.column.toNat)]

def ofJson? (v : Json) : Option Point := do
  let r ← v.record? ["row", "column"]
  let row ← r.required "row" Json.toUInt32?
  let column ← r.required "column" Json.toUInt32?
  return ⟨row, column⟩

end Point

namespace Span

def toJson (s : Span) : Json :=
  .record [("start", s.start.toJson), ("end", s.stop.toJson)]

/-- The span with the given ends, which are kept in the order that they are
given in. -/
def ofJson? (v : Json) : Option Span := do
  let r ← v.record? ["start", "end"]
  let start ← r.required "start" Point.ofJson?
  let stop ← r.required "end" Point.ofJson?
  return ⟨start, stop⟩

end Span

namespace Category

def toJson (c : Category) : Json := .string c.name

def ofJson? (reading : Reading) (v : Json) : Option Category :=
  (v.toChoice? reading).bind ofName?

end Category

namespace Code

def toJson : Code → Json
  | number n => .natural n.toNat
  | name s => .string s

def ofJson? : Json → Option Code
  | .text content => content.map name
  | v => v.toUInt32?.map number

end Code

namespace Diagnostic

def toJson (d : Diagnostic) : Json :=
  .record <|
    [("category", d.category.toJson), ("code", d.code.toJson), ("text", .string d.text)] ++
      Json.knownMember "start" Location.toJson d.start ++
      Json.knownMember "end" Location.toJson d.stop ++
      (if d.reportsUnnecessary then [("reportsUnnecessary", .boolean true)] else []) ++
      Json.knownMember "source" Json.string d.source

def fieldNames : List String :=
  ["category", "code", "text", "start", "end", "reportsUnnecessary", "source"]

def ofJson? (reading : Reading) (v : Json) : Option Diagnostic := do
  let r ← v.record? fieldNames
  let category ← r.required "category" (Category.ofJson? reading)
  let code ← r.required "code" Code.ofJson?
  let text ← r.required "text" Json.toText?
  let start ← r.omissible "start" Location.ofJson?
  let stop ← r.omissible "end" Location.ofJson?
  let reportsUnnecessary ← r.orElse "reportsUnnecessary" Json.toBool? false
  let source ← r.omissible "source" Json.toText?
  return { category, code, text, start, stop, reportsUnnecessary, source }

def ofText? (text : String) : Option Diagnostic :=
  (Json.parse? text).bind (ofJson? .direct)

def toText (d : Diagnostic) : String := d.toJson.compact

end Diagnostic

end DiagnosticFeed
