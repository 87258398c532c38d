import DiagnosticFeed.Proofs.Position.Rank
import Mathlib.Order.Interval.Set.LinearOrder
import Mathlib.Order.MinMax

/-!
# Spans as sets of points

Points are linearly ordered, and the points that a span holds are the half-open
interval between its ends. What the tests on spans say by comparing ends is
thereby said about sets: between spans of some width, to overlap is to share a
point and to cover is to hold all points of the other. A span of no width holds
no point, so the sets cannot tell where it stands, and only the comparison says
what overlaps it.
-/

namespace DiagnosticFeed

namespace Point

instance : LinearOrder Point where
  le_refl p := le_iff_rank.2 (Nat.le_refl p.rank)
  le_trans p q r pq qr := le_iff_rank.2 (Nat.le_trans (le_iff_rank.1 pq) (le_iff_rank.1 qr))
  lt_iff_le_not_ge p q := by
    rw [lt_iff_rank, le_iff_rank, le_iff_rank]
    omega
  le_antisymm p q pq qp := rank_inj.1 (Nat.le_antisymm (le_iff_rank.1 pq) (le_iff_rank.1 qp))
  le_total p q := by
    rw [le_iff_rank, le_iff_rank]
    exact Nat.le_total p.rank q.rank
  toDecidableLE := inferInstance
  toDecidableEq := inferInstance
  toDecidableLT := inferInstance

end Point

namespace Span

variable {s t : Span}

def points (s : Span) : Set Point := {p | s.holds p = true}

theorem points_eq_Ico (s : Span) : s.points = Set.Ico s.start s.stop := by
  ext p
  rw [points, Set.mem_ofPred_eq, holds, decide_eq_true_iff, Set.mem_Ico]

theorem start_lt_stop (ordered : s.start ≤ s.stop) (wide : s.isEmpty = false) :
    s.start < s.stop := by
  rw [isEmpty, decide_eq_false_iff_not] at wide
  exact lt_of_le_of_ne ordered wide

theorem meets_iff_lt (s t : Span) :
    s.meets t = true ↔ t.start < s.stop ∧ s.start < t.stop := by
  rw [meets, decide_eq_true_iff, not_or, not_le, not_le]

theorem meets_comm (s t : Span) : s.meets t = t.meets s := by
  rw [Bool.eq_iff_iff, meets_iff_lt, meets_iff_lt, and_comm]

theorem meets_emptyAt_iff (s : Span) (p : Point) :
    s.meets (emptyAt p) = true ↔ s.start < p ∧ p < s.stop := by
  rw [meets_iff_lt, emptyAt, and_comm]

/-- The shared points of two spans are those between the later start and the
earlier stop. -/
theorem meets_iff_nonempty (hs : s.start < s.stop) (ht : t.start < t.stop) :
    s.meets t = true ↔ (s.points ∩ t.points).Nonempty := by
  rw [meets_iff_lt, points_eq_Ico, points_eq_Ico, Set.Ico_inter_Ico, Set.nonempty_Ico,
    max_lt_iff, lt_min_iff, lt_min_iff]
  constructor
  · rintro ⟨before, behind⟩
    exact ⟨⟨hs, behind⟩, before, ht⟩
  · rintro ⟨⟨-, behind⟩, before, -⟩
    exact ⟨before, behind⟩

theorem covers_iff_subset (ht : t.start < t.stop) :
    s.covers t = true ↔ t.points ⊆ s.points := by
  rw [covers, decide_eq_true_iff, points_eq_Ico, points_eq_Ico, Set.Ico_subset_Ico_iff ht]

theorem meets_of_covers_wide (ht : t.start < t.stop) (covers : s.covers t = true) :
    s.meets t = true := by
  rw [Span.covers, decide_eq_true_iff] at covers
  rw [meets_iff_lt]
  exact ⟨ht.trans_le covers.2, covers.1.trans_lt ht⟩

/-- Which of two spans comes first does not matter for overlap. Between spans of
some width, written in order, overlap is a shared point, and one covers the other
if it holds all of its points; so what is covered is overlapped. A span of no
width is overlapped where it stands strictly inside. -/
theorem meets_covers_points :
    (∀ s t : Span, s.meets t = t.meets s) ∧
      ∀ s t : Span, s.start ≤ s.stop → t.start ≤ t.stop →
        (s.isEmpty = false → t.isEmpty = false →
          (s.meets t = true ↔ (s.points ∩ t.points).Nonempty) ∧
            (s.covers t = true ↔ t.points ⊆ s.points)) ∧
          (∀ p, t = emptyAt p → (s.meets t = true ↔ s.start < p ∧ p < s.stop)) ∧
            (t.isEmpty = false → s.covers t = true → s.meets t = true) := by
  refine ⟨meets_comm, fun s t hs ht => ⟨fun wide wide' => ?_, fun p empty => ?_, fun wide => ?_⟩⟩
  · have hs := start_lt_stop hs wide
    have ht := start_lt_stop ht wide'
    exact ⟨meets_iff_nonempty hs ht, covers_iff_subset ht⟩
  · rw [empty]
    exact meets_emptyAt_iff s p
  · exact meets_of_covers_wide (start_lt_stop ht wide)

/-- The last column of a row against the row, and a caret between two rows. -/
theorem meets_covers_points_lastColumn :
    ((⟨0, 0⟩ : Point) ≤ ⟨1, 0⟩ ∧ (⟨0, 4294967295⟩ : Point) ≤ ⟨1, 0⟩ ∧
        (Span.mk ⟨0, 0⟩ ⟨1, 0⟩).isEmpty = false ∧
          (Span.mk ⟨0, 4294967295⟩ ⟨1, 0⟩).isEmpty = false) ∧
      (Span.mk ⟨0, 4294967295⟩ ⟨1, 0⟩).points ⊆ (Span.mk ⟨0, 0⟩ ⟨1, 0⟩).points ∧
        ((Span.mk ⟨0, 0⟩ ⟨1, 0⟩).points ∩ (Span.mk ⟨0, 4294967295⟩ ⟨1, 0⟩).points).Nonempty ∧
          (Span.mk ⟨0, 0⟩ ⟨1, 0⟩).meets (.emptyAt ⟨1, 0⟩) = false := by
  have row : (⟨0, 0⟩ : Point) ≤ ⟨1, 0⟩ := by decide
  have column : (⟨0, 4294967295⟩ : Point) ≤ ⟨1, 0⟩ := by decide
  have caret : (⟨1, 0⟩ : Point) ≤ ⟨1, 0⟩ := by decide
  obtain ⟨-, sets⟩ := meets_covers_points
  obtain ⟨sameAsSets, -, meets⟩ := sets ⟨⟨0, 0⟩, ⟨1, 0⟩⟩ ⟨⟨0, 4294967295⟩, ⟨1, 0⟩⟩ row column
  obtain ⟨-, stands, -⟩ := sets ⟨⟨0, 0⟩, ⟨1, 0⟩⟩ (.emptyAt ⟨1, 0⟩) row caret
  obtain ⟨shares, holds⟩ := sameAsSets (by decide) (by decide)
  refine ⟨⟨row, column, by decide, by decide⟩, holds.1 (by decide), ?_, ?_⟩
  · exact shares.1 (meets (by decide) (by decide))
  · rw [Bool.eq_false_iff, Ne, stands ⟨1, 0⟩ rfl]
    decide

end Span

end DiagnosticFeed
