import DiagnosticFeed.Diagnostic

/-!
# Severities

A message is published with a severity.  A table of rules may give the severity
of a code; for all other codes it follows from the category.
-/

namespace DiagnosticFeed

inductive Severity where
  | error
  | warning
  | info
deriving DecidableEq

namespace Severity

def name : Severity → String
  | error => "error"
  | warning => "warning"
  | info => "info"

def ofName? : String → Option Severity
  | "error" => some error
  | "warning" => some warning
  | "info" => some info
  | _ => none

@[simp]
theorem ofName?_name (s : Severity) : ofName? s.name = some s := by
  cases s <;> rfl

def ofCategory : Category → Severity
  | .error => error
  | .warning => warning
  | .suggestion => info
  | .message => info

end Severity

/-- Rules that give the severity of codes; the first rule for a code counts. -/
abbrev SeverityRules := List (String × Severity)

def SeverityRules.push (rules : SeverityRules) (code : String) (severity : Severity) :
    SeverityRules := rules ++ [(code, severity)]

def SeverityRules.pushAll (rules : SeverityRules) (more : List (String × Severity)) :
    SeverityRules := more.foldl (fun rules rule => rules.push rule.1 rule.2) rules

def SeverityRules.resolve (rules : SeverityRules) (d : Diagnostic) : Severity :=
  (rules.lookup d.code.text).getD (Severity.ofCategory d.category)

end DiagnosticFeed
