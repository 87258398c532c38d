import DiagnosticFeed.Dependency
import DiagnosticFeed.Settings

/-!
# Suppression

Before issues are published they pass a list of suppressors.  The first one
that excludes an issue decides, and an issue that none excludes is published.
Queries never look at suppressors.
-/

namespace DiagnosticFeed

inductive Suppressor where
  | everything
  | codes (ignored : List String)
  /-- Unused code, and suggestions about third-party code. -/
  | dependencyNoise (area : DependencyArea)

namespace Suppressor

def name : Suppressor → String
  | everything => "suppress-all"
  | codes _ => "ignored-code"
  | dependencyNoise _ => "dependency-noise"

def excludes (file : FileKey) (d : Diagnostic) : Suppressor → Bool
  | everything => true
  | codes ignored => ignored.contains d.code.text
  | dependencyNoise area =>
    d.reportsUnnecessary || (d.category = .suggestion && area.covers file)

def isTotal : Suppressor → Bool
  | everything => true
  | _ => false

/-- The suppressor that leaves out an issue, if there is one. -/
def decisive? (suppressors : List Suppressor) (file : FileKey) (d : Diagnostic) :
    Option Suppressor :=
  suppressors.find? (excludes file d)

end Suppressor

namespace Settings

def dependencyArea (s : Settings) : DependencyArea :=
  .ofPaths s.projectRoots s.dependencyDirectories

def suppressors (s : Settings) : List Suppressor :=
  (if s.suppressAll then [.everything] else []) ++
    (if s.ignoredCodes.isEmpty then [] else [.codes s.ignoredCodes]) ++
    (if s.ignoreUnusedSuggestions then [.dependencyNoise s.dependencyArea] else [])

end Settings

end DiagnosticFeed
