import DiagnosticFeed.Log.Transcript
import DiagnosticFeed.Proofs.Position.Rank
import DiagnosticFeed.Proofs.Store.Entries

/-!
# What a query for a whole file finds

A query without a point and without a span asks for the span of the whole file.
Spans that merely touch do not overlap, so an issue of no width at the very
start of the file is not in that span, and it is the only kind of issue that is
missed (`span_meets_wholeFile`). Issues without locations are of this kind.
-/

namespace DiagnosticFeed

namespace Diagnostic

/-- Whether an issue has no width and is at the start of its file: a location is
missing, or neither count of either location is above one. -/
def isAtStart (d : Diagnostic) : Bool :=
  match d.start, d.stop with
  | some start, some stop =>
    start.line ≤ 1 && start.offset ≤ 1 && stop.line ≤ 1 && stop.offset ≤ 1
  | _, _ => true

theorem isAtStart_iff (d : Diagnostic) :
    d.isAtStart = true ↔ d.locations.1.toPoint.rank = 0 ∧ d.locations.2.toPoint.rank = 0 := by
  have counts : ∀ l : Location, l.toPoint.rank = 0 ↔ l.line ≤ 1 ∧ l.offset ≤ 1 := by
    intro l
    rw [Location.rank_toPoint, UInt32.le_iff_toNat_le, UInt32.le_iff_toNat_le, UInt32.toNat_one]
    omega
  have origin : Location.origin.toPoint.rank = 0 := by decide
  unfold isAtStart locations
  cases d.start with
  | none => simp [origin]
  | some start =>
      cases d.stop with
      | none => simp [origin]
      | some stop => simp [counts, and_assoc]

/-- No issue but those of no width at the start is outside the whole file: a
location is never behind the last point, as its counts start at one. -/
theorem span_meets_wholeFile (d : Diagnostic) :
    d.span.meets Span.wholeFile = !d.isAtStart := by
  have first : Span.wholeFile.start.rank = 0 := by decide
  have last : Span.wholeFile.stop.rank = 4294967295 * 4294967296 + 4294967295 := by decide
  have inside : ∀ l : Location, l.toPoint.rank < Span.wholeFile.stop.rank := by
    intro l
    have line := l.line.toNat_lt
    have offset := l.offset.toNat_lt
    rw [last, Location.rank_toPoint]
    omega
  have inside₁ := inside d.locations.1
  have inside₂ := inside d.locations.2
  rw [Bool.eq_iff_iff, Span.meets_iff_rank, first, Bool.not_eq_true', ← Bool.not_eq_true,
    isAtStart_iff, span, Span.ofLocations, Span.rank_start_between, Span.rank_stop_between]
  omega

end Diagnostic

namespace Store

theorem issuesIn_wholeFile (s : Store) (file : String) :
    s.issuesIn file Span.wholeFile = (s.stored file).filter fun d => !d.isAtStart := by
  rw [issuesIn, issuesWhere_eq_filter]
  simp only [Diagnostic.span_meets_wholeFile]

end Store

namespace Log

namespace Player

/-- The answer to a query for a whole file is complete exactly if no issue about
the file is of no width at the start; and it is only those that it lacks. -/
theorem found_wholeFile (p : Player) (file : String) :
    ∃ answer, (p.play (.query file none none)).entries.getLast? = some (.found file answer) ∧
      answer = (p.feed.store.stored file).filter (fun d => !d.isAtStart) ∧
        (answer = p.feed.store.stored file ↔
          ∀ d ∈ p.feed.store.stored file, d.isAtStart = false) := by
  refine ⟨_, List.getLast?_concat, ?_, ?_⟩
  · exact Store.issuesIn_wholeFile p.feed.store file
  · rw [find, Store.issuesIn_wholeFile, List.filter_eq_self]
    simp

/-- An issue without locations is stored and a query for the whole file misses
it. -/
theorem unlocated_not_found :
    ((start .standard 100).play (.report ⟨"t"⟩ "a.ts" ⟨none,
      [⟨.error, .number 5023, "x", none, none, false, none⟩]⟩)).feed.store.stored "a.ts" =
        [⟨.error, .number 5023, "x", none, none, false, none⟩] ∧
      (((start .standard 100).play (.report ⟨"t"⟩ "a.ts" ⟨none,
        [⟨.error, .number 5023, "x", none, none, false, none⟩]⟩)).play
          (.query "a.ts" none none)).entries.getLast? = some (.found "a.ts" []) := by
  decide +kernel

end Player

end Log

end DiagnosticFeed
