/-!
# Positions

Producers report positions as `Location`s, which count lines and offsets from
one.  Everything behind the store works with `Point`s, which count rows and
columns from zero, and with half-open `Span`s between two points.  All counts
are 32 bits wide.
-/

namespace DiagnosticFeed

/-- A position as a producer reports it, both counts starting at one. -/
structure Location where
  line : UInt32
  offset : UInt32
deriving DecidableEq

/-- Stands in for a location that a producer left out. -/
def Location.origin : Location := ⟨1, 1⟩

/-- A position with both counts starting at zero. -/
structure Point where
  row : UInt32
  column : UInt32
deriving DecidableEq

namespace Point

/-- Points are ordered by row, and within a row by column. -/
instance : LT Point where
  lt p q := p.row < q.row ∨ (p.row = q.row ∧ p.column < q.column)

instance : LE Point where
  le p q := p.row < q.row ∨ (p.row = q.row ∧ p.column ≤ q.column)

theorem lt_def {p q : Point} :
    p < q ↔ p.row < q.row ∨ (p.row = q.row ∧ p.column < q.column) := Iff.rfl

theorem le_def {p q : Point} :
    p ≤ q ↔ p.row < q.row ∨ (p.row = q.row ∧ p.column ≤ q.column) := Iff.rfl

instance (p q : Point) : Decidable (p < q) := decidable_of_iff _ lt_def.symm

instance (p q : Point) : Decidable (p ≤ q) := decidable_of_iff _ le_def.symm

def first : Point := ⟨0, 0⟩

def last : Point := ⟨4294967295, 4294967295⟩

end Point

/-- One less, but never below zero. -/
def previousCount (n : UInt32) : UInt32 := if n = 0 then 0 else n - 1

/-- The point at a reported location.  A count of zero is read as one. -/
def Location.toPoint (l : Location) : Point :=
  ⟨previousCount l.line, previousCount l.offset⟩

/-- The positions from `start` up to but not including `stop`. -/
structure Span where
  start : Point
  stop : Point
deriving DecidableEq

namespace Span

/-- The span between two points, given in either order. -/
def between (a b : Point) : Span := if a ≤ b then ⟨a, b⟩ else ⟨b, a⟩

def ofLocations (a b : Location) : Span := between a.toPoint b.toPoint

def emptyAt (p : Point) : Span := ⟨p, p⟩

def wholeFile : Span := between Point.first Point.last

def isEmpty (s : Span) : Bool := s.start = s.stop

/-- Whether a point lies in the span.  A span of no width holds no point. -/
def holds (s : Span) (p : Point) : Bool := s.start ≤ p ∧ p < s.stop

def covers (s t : Span) : Bool := s.start ≤ t.start ∧ t.stop ≤ s.stop

/-- Whether the span overlaps `t`.  Spans that merely touch do not overlap. -/
def meets (s t : Span) : Bool := ¬(s.stop ≤ t.start ∨ t.stop ≤ s.start)

end Span

end DiagnosticFeed
