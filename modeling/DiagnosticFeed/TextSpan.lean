import DiagnosticFeed.Position

/-!
# Spans of text

Some producers report a span as a start and a length, both counted in
characters of the file's text.  `Span.ofText` turns such a pair into a span
between points.
-/

namespace DiagnosticFeed

def Point.advance (p : Point) (c : Char) : Point :=
  if c = '\n' then ⟨p.row + 1, 0⟩ else ⟨p.row, p.column + 1⟩

def Point.behind (text : List Char) : Point := text.foldl Point.advance Point.first

/-- The point in front of the character at an offset; an offset past the end
of the text is taken as its end. -/
def Point.atOffset (text : List Char) (offset : Nat) : Point :=
  Point.behind (text.take offset)

/-- The sum of two 64-bit counts, held at the largest count. -/
def cappedSum (a b : UInt64) : UInt64 :=
  if a.toNat + b.toNat < UInt64.size then a + b else UInt64.ofNat (UInt64.size - 1)

/-- The span of `length` characters of the text from offset `start` on. -/
def Span.ofText (text : String) (start length : UInt64) : Span :=
  Span.between (Point.atOffset text.toList start.toNat)
    (Point.atOffset text.toList (cappedSum start length).toNat)

end DiagnosticFeed
