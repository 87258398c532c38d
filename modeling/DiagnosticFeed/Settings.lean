import DiagnosticFeed.Severity

/-!
# Settings

The settings say which issues are published and with what severity.  They are
looked at whenever messages are published, so a change takes effect at the next
publication.
-/

namespace DiagnosticFeed

structure Settings where
  suppressAll : Bool
  ignoredCodes : List String
  /-- Leave out unused code, and suggestions about third-party code. -/
  ignoreUnusedSuggestions : Bool
  /-- Publish the codes for unused declarations as information. -/
  unusedAsInfo : Bool
  unusedCodes : List String
  /-- Severities for codes, behind the rule for unused declarations. -/
  severityOverrides : SortedMap String Severity
  projectRoots : List String
  dependencyDirectories : List String
deriving DecidableEq

namespace Settings

def standard : Settings where
  suppressAll := false
  ignoredCodes := []
  ignoreUnusedSuggestions := false
  unusedAsInfo := false
  unusedCodes := ["6133"]
  severityOverrides := .empty
  projectRoots := []
  dependencyDirectories := ["node_modules"]

/-- The severity rules: unused declarations first, then the overrides in the
order of their codes. -/
def severityRules (s : Settings) : SeverityRules :=
  (if s.unusedAsInfo then s.unusedCodes.map fun code => (code, Severity.info) else []) ++
    s.severityOverrides.entries

inductive Change where
  | replace (settings : Settings)
  | suppressAll (on : Bool)
  | ignoreCode (code : String)

def apply (s : Settings) : Change → Settings
  | .replace settings => settings
  | .suppressAll on => { s with suppressAll := on }
  | .ignoreCode code => { s with ignoredCodes := s.ignoredCodes ++ [code] }

end Settings

end DiagnosticFeed
