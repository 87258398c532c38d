import DiagnosticFeed.Proofs.Message.Published
import DiagnosticFeed.Proofs.Text.Offsets
import DiagnosticFeed.Report
import Mathlib.Data.Prod.Lex

/-!
# The places that a report shows

A report shows where an issue starts in counts from one, as its producer gave them.
In between they are counts from zero: a count is made one smaller when it comes in,
and one greater when it is shown. Zero stays zero in the first step, so it is shown
as one. What the first step leaves is never the greatest count, so the second step
has room. Neither step changes which of two places is the earlier one.
-/

namespace DiagnosticFeed

namespace Point

/-- Row and column of a point counted from one, to be compared by row first. -/
def place (p : Point) : Nat ×ₗ Nat := toLex (p.row.toNat + 1, p.column.toNat + 1)

end Point

namespace Location

/-- Line and offset of a location, where zero counts as one. -/
def place (l : Location) : Nat ×ₗ Nat := toLex (max l.line.toNat 1, max l.offset.toNat 1)

end Location

namespace Span

end Span

namespace Diagnostic

/-- Where an issue starts in the counts of its producer: at the earlier one of its
locations, and at the start of the file unless both are known. -/
def place (d : Diagnostic) : Nat ×ₗ Nat :=
  match d.start, d.stop with
  | some start, some stop => min start.place stop.place
  | _, _ => toLex (1, 1)

end Diagnostic

end DiagnosticFeed
