import DiagnosticFeed.Position
import DiagnosticFeed.SortedMap

/-!
# Diagnostics

A diagnostic is one issue that a producer reports about a file.  Each producer
reports under a `Tag` of its own, so that a fresh report of one never replaces
what another said about the same file.
-/

namespace DiagnosticFeed

/-- The name under which a producer reports. -/
structure Tag where
  name : String
deriving DecidableEq

namespace Tag

theorem ext {a b : Tag} (h : a.name = b.name) : a = b := by
  cases a; cases b; cases h; rfl

instance : TextKey Tag := ⟨name, ext⟩

def syntactic : Tag := ⟨"syntacticDiag"⟩

def semantic : Tag := ⟨"semanticDiag"⟩

def suggestion : Tag := ⟨"suggestionDiag"⟩

def configFile : Tag := ⟨"configFileDiag"⟩

end Tag

inductive Category where
  | error
  | warning
  | suggestion
  | message
deriving DecidableEq

def Category.name : Category → String
  | error => "error"
  | warning => "warning"
  | suggestion => "suggestion"
  | message => "message"

def Category.ofName? : String → Option Category
  | "error" => some .error
  | "warning" => some .warning
  | "suggestion" => some .suggestion
  | "message" => some .message
  | _ => none

@[simp]
theorem Category.ofName?_name (c : Category) : ofName? c.name = some c := by
  cases c <;> rfl

/-- The code of an issue, in the producer's own numbering or naming. -/
inductive Code where
  | number (n : UInt32)
  | name (s : String)
deriving DecidableEq

/-- The code as text.  Codes are compared by it. -/
def Code.text : Code → String
  | number n => n.toNat.repr
  | name s => s

structure Diagnostic where
  category : Category
  code : Code
  text : String
  start : Option Location
  stop : Option Location
  /-- Whether the issue is that something is declared and never used. -/
  reportsUnnecessary : Bool
  /-- The tool that found the issue. -/
  source : Option String
deriving DecidableEq

namespace Diagnostic

def isLocated (d : Diagnostic) : Bool := d.start.isSome && d.stop.isSome

/-- Both locations.  Unless both are known, the issue is at the origin. -/
def locations (d : Diagnostic) : Location × Location :=
  match d.start, d.stop with
  | some start, some stop => (start, stop)
  | _, _ => (Location.origin, Location.origin)

def span (d : Diagnostic) : Span := Span.ofLocations d.locations.1 d.locations.2

def markUnnecessary (d : Diagnostic) : Diagnostic := { d with reportsUnnecessary := true }

end Diagnostic

end DiagnosticFeed
