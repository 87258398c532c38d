import DiagnosticFeed.Settings
import DiagnosticFeed.Diagnostic.Json

/-!
# Settings as JSON

All fields of the settings are written, and all of them may be left out, which
gives the standard settings' value.  A code that has several overrides keeps
the last.
-/

namespace DiagnosticFeed

open Json (Reading)

namespace Severity

def toJson (s : Severity) : Json := .string s.name

def ofJson? (reading : Reading) (v : Json) : Option Severity :=
  (v.toChoice? reading).bind ofName?

end Severity

namespace Settings

def overridesToJson (overrides : SortedMap String Severity) : Json :=
  .record (overrides.entries.map fun e => (e.1, e.2.toJson))

def overridesOfJson? : Json → Option (SortedMap String Severity)
  | .object ms => do
    let members ← Json.keyed? ms
    let rules ← members.mapM fun m => (Severity.ofJson? .direct m.2).map fun s => (m.1, s)
    return SortedMap.ofList rules
  | _ => none

def toJson (s : Settings) : Json :=
  .record
    [("suppressAllDiagnostics", .boolean s.suppressAll),
     ("ignoredDiagnosticCodes", .strings s.ignoredCodes),
     ("ignoreUnusedSuggestionDiagnostics", .boolean s.ignoreUnusedSuggestions),
     ("unusedAsInfo", .boolean s.unusedAsInfo),
     ("unusedDiagnosticCodes", .strings s.unusedCodes),
     ("severityOverrides", overridesToJson s.severityOverrides),
     ("projectRoots", .strings s.projectRoots),
     ("dependencyDirectories", .strings s.dependencyDirectories)]

def fieldNames : List String :=
  ["suppressAllDiagnostics", "ignoredDiagnosticCodes", "ignoreUnusedSuggestionDiagnostics",
   "unusedAsInfo", "unusedDiagnosticCodes", "severityOverrides", "projectRoots",
   "dependencyDirectories"]

def ofJson? (v : Json) : Option Settings := do
  let r ← v.record? fieldNames
  let texts := Json.toList? Json.toText?
  let suppressAll ← r.orElse "suppressAllDiagnostics" Json.toBool? standard.suppressAll
  let ignoredCodes ← r.orElse "ignoredDiagnosticCodes" texts standard.ignoredCodes
  let ignoreUnusedSuggestions ←
    r.orElse "ignoreUnusedSuggestionDiagnostics" Json.toBool? standard.ignoreUnusedSuggestions
  let unusedAsInfo ← r.orElse "unusedAsInfo" Json.toBool? standard.unusedAsInfo
  let unusedCodes ← r.orElse "unusedDiagnosticCodes" texts standard.unusedCodes
  let severityOverrides ←
    r.orElse "severityOverrides" overridesOfJson? standard.severityOverrides
  let projectRoots ← r.orElse "projectRoots" texts standard.projectRoots
  let dependencyDirectories ←
    r.orElse "dependencyDirectories" texts standard.dependencyDirectories
  return {
    suppressAll, ignoredCodes, ignoreUnusedSuggestions, unusedAsInfo, unusedCodes,
    severityOverrides, projectRoots, dependencyDirectories }

def ofText? (text : String) : Option Settings := (Json.parse? text).bind ofJson?

def toText (s : Settings) : String := s.toJson.compact

end Settings

end DiagnosticFeed
