import DiagnosticFeed.Json.Pretty

/-!
# The schema of settings files

`SettingsDocument.schemaJson` describes what a settings file may hold, for the
use of editors.
-/

namespace DiagnosticFeed.SettingsDocument

def flagSchema (description : String) (default : Bool) : Json :=
  .record
    [("type", .string "boolean"), ("description", .string description),
     ("default", .boolean default)]

def textsSchema (description : String) (more : List (String × Json)) : Json :=
  .record <|
    [("type", .string "array"), ("description", .string description),
     ("items", .record [("type", .string "string")])] ++ more

def settingsSchema : Json :=
  .record
    [("type", .string "object"),
     ("description",
       .string "Publish-time diagnostics configuration, re-read at every publish"),
     ("properties", .record
       [("suppressAllDiagnostics", flagSchema "Publish nothing at all" false),
        ("ignoredDiagnosticCodes",
          textsSchema "Diagnostic codes that are never published (still returned by queries)"
            [("examples", .array [.strings ["2322", "7006"]])]),
        ("ignoreUnusedSuggestionDiagnostics",
          flagSchema "Drop 'unused' diagnostics, and suggestions inside dependency directories"
            false),
        ("unusedAsInfo",
          flagSchema "Publish 'declared but never used' diagnostics as info" false),
        ("unusedDiagnosticCodes",
          textsSchema "Codes treated as 'declared but never used' by unusedAsInfo"
            [("default", .strings ["6133"])]),
        ("severityOverrides", .record
          [("type", .string "object"),
           ("description", .string "Code to severity rules applied after unusedAsInfo"),
           ("additionalProperties", .record
             [("enum", .strings ["error", "warning", "info"])])]),
        ("projectRoots",
          textsSchema
            "Project roots used to relativize file paths (defaults to the working directory)"
            []),
        ("dependencyDirectories",
          textsSchema "Directories, relative to a project root, holding third-party code"
            [("default", .strings ["node_modules"])])]),
     ("additionalProperties", .boolean false)]

def replaySchema : Json :=
  .record
    [("type", .string "object"),
     ("description", .string "Replay command configuration"),
     ("properties", .record
       [("debounceMs", .record
         [("type", .string "integer"), ("minimum", .natural 0),
          ("description", .string "Publish debounce window in milliseconds"),
          ("default", .natural 100)])]),
     ("additionalProperties", .boolean false)]

def schemaJson : Json :=
  .record
    [("$schema", .string "http://json-schema.org/draft-07/schema#"),
     ("title", .string "Tessera Configuration"),
     ("description",
       .string "Configuration file for tessera - diagnostic aggregation and publication"),
     ("type", .string "object"),
     ("properties", .record
       [("$schema", .record
         [("type", .string "string"),
          ("description", .string "JSON Schema reference for editor autocompletion")]),
        ("diagnostics", settingsSchema),
        ("replay", replaySchema)]),
     ("additionalProperties", .boolean false)]

def schemaText : String := schemaJson.pretty .short

end DiagnosticFeed.SettingsDocument
