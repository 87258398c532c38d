import DiagnosticFeed.Proofs.Position.Rank
import DiagnosticFeed.Proofs.Store.Listing

/-!
# Asking for more of a file and for less

A query for a span answers with the issues that overlap it. What overlaps a span
overlaps every wider one, and what holds a point overlaps every span that holds
it too, so a wider query never answers with less. A span that is cut in two is
overlapped by what overlaps one of its halves, and besides that by what has no
width and stands at the cut: it touches both halves and overlaps neither
(`meets_split`).
-/

namespace DiagnosticFeed

namespace Span

variable {t : Span}

theorem meets_of_covers {narrow wide : Span} (wider : wide.covers narrow = true)
    (meets : t.meets narrow = true) : t.meets wide = true := by
  rw [covers_iff_rank] at wider
  rw [meets_iff_rank] at meets ⊢
  omega

theorem meets_of_holds {asked : Span} {p : Point} (inside : asked.holds p = true)
    (holds : t.holds p = true) : t.meets asked = true := by
  rw [holds_iff_rank] at inside holds
  rw [meets_iff_rank]
  omega

/-- A span overlaps another one that is cut in two if it overlaps one of the
halves, or is inside, of no width and at the cut. -/
theorem meets_split {a b c : Point} (ab : a ≤ b) (bc : b ≤ c)
    (ordered : t.start.rank ≤ t.stop.rank) :
    t.meets ⟨a, c⟩ = true ↔
      t.meets ⟨a, b⟩ = true ∨ t.meets ⟨b, c⟩ = true ∨ t = emptyAt b ∧ a < b ∧ b < c := by
  rw [Point.le_iff_rank] at ab bc
  simp only [meets_iff_rank, eq_emptyAt_iff_rank, Point.lt_iff_rank]
  omega

end Span

theorem Diagnostic.rank_start_le_stop (d : Diagnostic) : d.span.start.rank ≤ d.span.stop.rank := by
  rw [span, Span.ofLocations, Span.rank_start_between, Span.rank_stop_between]
  omega

namespace Store

variable {s : Store} {file : String}

theorem issuesWhere_sublist {test test' : Span → Bool}
    (weaker : ∀ span, test span = true → test' span = true) :
    (s.issuesWhere file test).Sublist (s.issuesWhere file test') := by
  rw [issuesWhere_eq_filter, issuesWhere_eq_filter]
  exact List.monotone_filter_right _ fun d => weaker d.span

theorem mem_issuesIn_iff_of_stored {d : Diagnostic} (stored : d ∈ s.stored file) (asked : Span) :
    d ∈ s.issuesIn file asked ↔ d.span.meets asked = true := by
  rw [issuesIn, issuesWhere_eq_filter, List.mem_filter]
  exact and_iff_right stored

theorem issuesIn_split (s : Store) (file : String) {a b c : Point} (ab : a ≤ b) (bc : b ≤ c) :
    s.issuesIn file ⟨a, c⟩ = (s.stored file).filter fun d =>
      d ∈ s.issuesIn file ⟨a, b⟩ ∨ d ∈ s.issuesIn file ⟨b, c⟩ ∨
        d.span = .emptyAt b ∧ a < b ∧ b < c := by
  rw [issuesIn, issuesWhere_eq_filter]
  refine List.filter_congr fun d stored => ?_
  rw [Bool.eq_iff_iff, decide_eq_true_iff, mem_issuesIn_iff_of_stored stored,
    mem_issuesIn_iff_of_stored stored]
  exact Span.meets_split ab bc d.rank_start_le_stop

/-- Of the issues stored for a file, which are listed by tag and then as the
producer has them, a query for a span that is cut in two answers with what its
halves answer with and what has no width and stands at the cut. A wider query
never answers with less, and what is found at a point is found in every span that
holds it. -/
theorem issuesIn_split_widen (s : Store) (file : String) {a b c : Point} (ab : a ≤ b)
    (bc : b ≤ c) :
    (s.issuesIn file ⟨a, c⟩ = (s.stored file).filter fun d =>
        d ∈ s.issuesIn file ⟨a, b⟩ ∨ d ∈ s.issuesIn file ⟨b, c⟩ ∨
          d.span = .emptyAt b ∧ a < b ∧ b < c) ∧
      (∀ narrow wide : Span, wide.covers narrow = true →
        (s.issuesIn file narrow).Sublist (s.issuesIn file wide)) ∧
        (∀ (p : Point) (asked : Span), asked.holds p = true →
          (s.issuesAt file p).Sublist (s.issuesIn file asked)) ∧
          (∀ asked, s.issuesIn file asked = (s.stored file).filter fun d => d.span.meets asked) ∧
            (∀ p, s.issuesAt file p = (s.stored file).filter fun d => d.span.holds p) ∧
              s.tags.Pairwise fun x y => Text.bytes x.name < Text.bytes y.name := by
  refine ⟨s.issuesIn_split file ab bc, fun narrow wide wider => ?_, fun p asked inside => ?_,
    fun _ => issuesWhere_eq_filter .., fun _ => issuesWhere_eq_filter .., SortedMap.keys_ascend _⟩
  · exact issuesWhere_sublist fun _ => Span.meets_of_covers wider
  · exact issuesWhere_sublist fun _ => Span.meets_of_holds inside

/-- One issue of no width, and one of a single character behind it. -/
def carets : Store :=
  ofHistory [.report ⟨"t"⟩ "a.ts" ⟨none,
    [⟨.error, .number 1, "x", some ⟨2, 5⟩, some ⟨2, 5⟩, false, none⟩,
      ⟨.error, .number 2, "y", some ⟨2, 5⟩, some ⟨2, 6⟩, false, none⟩]⟩]

/-- Cut at the two issues, a query has both of them, and its second half has the
one that is a character wide. -/
theorem issuesIn_split_widen_carets :
    ((⟨1, 0⟩ : Point) ≤ ⟨1, 4⟩ ∧ (⟨1, 4⟩ : Point) ≤ ⟨1, 9⟩ ∧
        (Span.mk ⟨1, 0⟩ ⟨1, 9⟩).covers ⟨⟨1, 0⟩, ⟨1, 4⟩⟩ = true ∧
          (Span.mk ⟨1, 4⟩ ⟨1, 9⟩).holds ⟨1, 4⟩ = true) ∧
      ((carets.issuesIn "a.ts" ⟨⟨1, 0⟩, ⟨1, 9⟩⟩).length = 2 ∧
          (carets.issuesIn "a.ts" ⟨⟨1, 0⟩, ⟨1, 4⟩⟩).length = 0 ∧
            (carets.issuesIn "a.ts" ⟨⟨1, 4⟩, ⟨1, 9⟩⟩).length = 1) ∧
        (carets.issuesIn "a.ts" ⟨⟨1, 0⟩, ⟨1, 9⟩⟩ = (carets.stored "a.ts").filter fun d =>
            d ∈ carets.issuesIn "a.ts" ⟨⟨1, 0⟩, ⟨1, 4⟩⟩ ∨
              d ∈ carets.issuesIn "a.ts" ⟨⟨1, 4⟩, ⟨1, 9⟩⟩ ∨
                d.span = .emptyAt ⟨1, 4⟩ ∧ Point.mk 1 0 < ⟨1, 4⟩ ∧ Point.mk 1 4 < ⟨1, 9⟩) ∧
          (carets.issuesIn "a.ts" ⟨⟨1, 0⟩, ⟨1, 4⟩⟩).Sublist
            (carets.issuesIn "a.ts" ⟨⟨1, 0⟩, ⟨1, 9⟩⟩) ∧
          (carets.issuesAt "a.ts" ⟨1, 4⟩).Sublist
            (carets.issuesIn "a.ts" ⟨⟨1, 4⟩, ⟨1, 9⟩⟩) := by
  have ab : (⟨1, 0⟩ : Point) ≤ ⟨1, 4⟩ := by decide
  have bc : (⟨1, 4⟩ : Point) ≤ ⟨1, 9⟩ := by decide
  have wider : (Span.mk ⟨1, 0⟩ ⟨1, 9⟩).covers ⟨⟨1, 0⟩, ⟨1, 4⟩⟩ = true := by decide
  have inside : (Span.mk ⟨1, 4⟩ ⟨1, 9⟩).holds ⟨1, 4⟩ = true := by decide
  obtain ⟨split, widen, around, -⟩ := carets.issuesIn_split_widen "a.ts" ab bc
  exact ⟨⟨ab, bc, wider, inside⟩, by decide +kernel, split, widen _ _ wider, around _ _ inside⟩

end Store

end DiagnosticFeed
