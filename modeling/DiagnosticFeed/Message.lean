import DiagnosticFeed.Suppression

/-!
# Messages

A message is an issue as it is published: with its severity, the file that it
is about and the span that it covers.
-/

namespace DiagnosticFeed

structure Message where
  severity : Severity
  excerpt : String
  file : String
  span : Span
deriving DecidableEq

namespace Message

def ofDiagnostic (severity : Severity) (file : FileKey) (d : Diagnostic) : Message where
  severity := severity
  excerpt := d.text
  file := file.text
  span := Span.ofLocations d.locations.1 d.locations.2

end Message

/-- The messages for issues that pass the settings' suppressors, in the order
of the issues. -/
def Settings.messages (s : Settings) (issues : List (FileKey × Diagnostic)) :
    List Message :=
  if s.suppressors.any Suppressor.isTotal then []
  else
    issues.filterMap fun (file, d) =>
      match Suppressor.decisive? s.suppressors file d with
      | some _ => none
      | none => some (.ofDiagnostic (s.severityRules.resolve d) file d)

end DiagnosticFeed
