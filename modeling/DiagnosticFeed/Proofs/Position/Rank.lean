import DiagnosticFeed.Position

/-!
# Points as numbers

Points are compared by row and then by column, which is the order of one number
(`Point.rank`). What is said about spans by comparing points is thereby said in
arithmetic of natural numbers.
-/

namespace DiagnosticFeed

namespace Point

/-- The number of points in front of a point. -/
def rank (p : Point) : Nat := p.row.toNat * 4294967296 + p.column.toNat

theorem le_iff_rank {p q : Point} : p ≤ q ↔ p.rank ≤ q.rank := by
  have hp := p.column.toNat_lt
  have hq := q.column.toNat_lt
  rw [le_def, UInt32.lt_iff_toNat_lt, UInt32.le_iff_toNat_le, ← UInt32.toNat_inj, rank, rank]
  omega

theorem lt_iff_rank {p q : Point} : p < q ↔ p.rank < q.rank := by
  have hp := p.column.toNat_lt
  have hq := q.column.toNat_lt
  rw [lt_def, UInt32.lt_iff_toNat_lt, UInt32.lt_iff_toNat_lt, ← UInt32.toNat_inj, rank, rank]
  omega

theorem rank_inj {p q : Point} : p.rank = q.rank ↔ p = q := by
  refine ⟨fun same => ?_, congrArg rank⟩
  obtain ⟨row, column⟩ := p
  obtain ⟨row', column'⟩ := q
  have hp := column.toNat_lt
  have hq := column'.toNat_lt
  simp only [rank] at same
  rw [mk.injEq, ← UInt32.toNat_inj, ← UInt32.toNat_inj]
  omega

end Point

namespace Span

theorem rank_start_between (a b : Point) :
    (between a b).start.rank = min a.rank b.rank := by
  unfold between
  by_cases h : a ≤ b
  · rw [if_pos h, Nat.min_eq_left (Point.le_iff_rank.1 h)]
  · rw [if_neg h]
    rw [Point.le_iff_rank, Nat.not_le] at h
    exact (Nat.min_eq_right (Nat.le_of_lt h)).symm

theorem rank_stop_between (a b : Point) :
    (between a b).stop.rank = max a.rank b.rank := by
  unfold between
  by_cases h : a ≤ b
  · rw [if_pos h, Nat.max_eq_right (Point.le_iff_rank.1 h)]
  · rw [if_neg h]
    rw [Point.le_iff_rank, Nat.not_le] at h
    exact (Nat.max_eq_left (Nat.le_of_lt h)).symm

/-- Spans overlap if each starts before the other stops. -/
theorem meets_iff_rank (s t : Span) :
    s.meets t = true ↔ t.start.rank < s.stop.rank ∧ s.start.rank < t.stop.rank := by
  rw [meets, decide_eq_true_iff, Point.le_iff_rank, Point.le_iff_rank]
  omega

theorem holds_iff_rank (s : Span) (p : Point) :
    s.holds p = true ↔ s.start.rank ≤ p.rank ∧ p.rank < s.stop.rank := by
  rw [holds, decide_eq_true_iff, Point.le_iff_rank, Point.lt_iff_rank]

theorem covers_iff_rank (s t : Span) :
    s.covers t = true ↔ s.start.rank ≤ t.start.rank ∧ t.stop.rank ≤ s.stop.rank := by
  rw [covers, decide_eq_true_iff, Point.le_iff_rank, Point.le_iff_rank]

theorem eq_emptyAt_iff_rank {s : Span} {p : Point} :
    s = emptyAt p ↔ s.start.rank = p.rank ∧ s.stop.rank = p.rank := by
  obtain ⟨start, stop⟩ := s
  rw [emptyAt, mk.injEq, Point.rank_inj, Point.rank_inj]

end Span

theorem toNat_previousCount (n : UInt32) : (previousCount n).toNat = n.toNat - 1 := by
  unfold previousCount
  by_cases h : n = 0
  · subst h
    rfl
  · rw [if_neg h]
    have positive : 1 ≤ n := by
      rw [UInt32.le_iff_toNat_le, UInt32.toNat_one]
      exact Nat.one_le_iff_ne_zero.2 fun zero => h (UInt32.toNat_inj.1 zero)
    exact UInt32.toNat_sub_of_le n 1 positive

theorem Location.rank_toPoint (l : Location) :
    l.toPoint.rank = (l.line.toNat - 1) * 4294967296 + (l.offset.toNat - 1) := by
  rw [toPoint, Point.rank, toNat_previousCount, toNat_previousCount]

end DiagnosticFeed
