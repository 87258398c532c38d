import DiagnosticFeed.Proofs.Position.Points
import DiagnosticFeed.TextSpan
import Mathlib.Data.List.Basic
import Mathlib.Data.List.Induction
import Mathlib.Data.Nat.SuccPred
import Mathlib.Order.Interval.Set.Monotone

/-!
# Characters of a text and the points in front of them

Where a character stands is told by what is in front of it: its row is the
number of line feeds there and its column the number of characters since the last
one (`Point.Follows`). Both are counted without bound, so that a point of 32-bit
counts that follows some characters is one that was reached without overflow.

Every further character leads to a later point, also where it begins a row and
takes the column back to zero. So in a text that is short enough for the counts,
offsets and points are in the same order, and the span of some characters holds
the points of these characters and of no others.
-/

namespace DiagnosticFeed

/-- A count that has room for one more goes up by one. -/
theorem toNat_add_one {n : UInt32} (room : n.toNat + 1 < 2 ^ 32) :
    (n + 1).toNat = n.toNat + 1 := by
  rw [UInt32.toNat_add, UInt32.toNat_one, Nat.mod_eq_of_lt room]

namespace Point

/-- The point is the one right behind the characters. -/
structure Follows (p : Point) (before : List Char) : Prop where
  row : p.row.toNat = before.count '\n'
  column : p.column.toNat = (before.reverse.takeWhile (· != '\n')).length

/-- Both counts of a point have room for one more. -/
structure HasRoom (p : Point) : Prop where
  row : p.row.toNat + 1 < 2 ^ 32
  column : p.column.toNat + 1 < 2 ^ 32

variable {p q : Point} {before text : List Char} {k : Nat}

/-- A line feed takes the column back, but then the row is a later one. -/
theorem HasRoom.lt_advance (room : p.HasRoom) (c : Char) : p < p.advance c := by
  unfold advance
  rw [lt_def, UInt32.lt_iff_toNat_lt, UInt32.lt_iff_toNat_lt]
  by_cases line : c = '\n'
  · rw [if_pos line, toNat_add_one room.row]
    exact Or.inl (Nat.lt_succ_self _)
  · rw [if_neg line, toNat_add_one room.column]
    exact Or.inr ⟨rfl, Nat.lt_succ_self _⟩

theorem follows_first : first.Follows [] := ⟨rfl, rfl⟩

namespace Follows

theorem unique (hp : p.Follows before) (hq : q.Follows before) : p = q := by
  obtain ⟨row, column⟩ := p
  obtain ⟨row', column'⟩ := q
  rw [mk.injEq, ← UInt32.toNat_inj, ← UInt32.toNat_inj]
  exact ⟨hp.row.trans hq.row.symm, hp.column.trans hq.column.symm⟩

/-- Neither count goes beyond the number of characters. -/
theorem hasRoom (h : p.Follows before) (room : before.length + 1 < 2 ^ 32) : p.HasRoom := by
  have row : before.count '\n' ≤ before.length := List.count_le_length
  have column := (before.reverse.takeWhile_sublist (· != '\n')).length_le
  rw [List.length_reverse] at column
  constructor
  · rw [h.row]
    omega
  · rw [h.column]
    omega

/-- One more character, as long as the counts have room for it. -/
theorem advance (h : p.Follows before) (room : p.HasRoom) (c : Char) :
    (p.advance c).Follows (before ++ [c]) := by
  unfold Point.advance
  by_cases line : c = '\n'
  · subst line
    rw [if_pos rfl]
    constructor
    · rw [toNat_add_one room.row, h.row, List.count_append, List.count_singleton_self]
    · simp
  · rw [if_neg line]
    constructor
    · rw [h.row, List.count_append, List.count_singleton, if_neg (by simpa using line), add_zero]
    · rw [toNat_add_one room.column, h.column]
      simp [line]

end Follows

theorem behind_concat (before : List Char) (c : Char) :
    behind (before ++ [c]) = (behind before).advance c :=
  List.foldl_concat advance first c before

theorem follows_behind (short : before.length < 2 ^ 32) : (behind before).Follows before := by
  -- the loop goes forward, so the induction is on the end of what it has read
  induction before using List.reverseRecOn with
  | nil => exact follows_first
  | append_singleton before c ih =>
      rw [List.length_append, List.length_singleton] at short
      have follows := ih (by omega)
      rw [behind_concat]
      exact follows.advance (follows.hasRoom short) c

theorem follows_atOffset (short : text.length < 2 ^ 32) (k : Nat) :
    (atOffset text k).Follows (text.take k) := by
  have shorter := List.length_take_le' k text
  exact follows_behind (by omega)

theorem atOffset_min (text : List Char) (k : Nat) :
    atOffset text (min k text.length) = atOffset text k := by
  have same : text.take (min k text.length) = text.take k := by
    rw [List.take_eq_take_iff]
    omega
  rw [atOffset, atOffset, same]

theorem hasRoom_atOffset (short : text.length < 2 ^ 32) (hk : k < text.length) :
    (atOffset text k).HasRoom := by
  have length := List.length_take_le k text
  exact (follows_atOffset short k).hasRoom (by omega)

theorem atOffset_succ (hk : k < text.length) :
    atOffset text (k + 1) = (atOffset text k).advance text[k] := by
  rw [atOffset, List.take_succ_eq_append_getElem hk, behind_concat, atOffset]

theorem atOffset_lt_succ (short : text.length < 2 ^ 32) (hk : k < text.length) :
    atOffset text k < atOffset text (k + 1) := by
  rw [atOffset_succ hk]
  exact (hasRoom_atOffset short hk).lt_advance text[k]

theorem strictMonoOn_atOffset (short : text.length < 2 ^ 32) :
    StrictMonoOn (atOffset text) (Set.Iic text.length) :=
  strictMonoOn_Iic_of_lt_succ fun _ hk => atOffset_lt_succ short hk

theorem atOffset_le_iff (short : text.length < 2 ^ 32) (j k : Nat) :
    atOffset text j ≤ atOffset text k ↔ min j text.length ≤ min k text.length := by
  rw [← atOffset_min text j, ← atOffset_min text k]
  exact (strictMonoOn_atOffset short).le_iff_le (Nat.min_le_right ..) (Nat.min_le_right ..)

theorem atOffset_lt_iff (short : text.length < 2 ^ 32) (j k : Nat) :
    atOffset text j < atOffset text k ↔ min j text.length < min k text.length := by
  rw [← not_le, ← not_le, atOffset_le_iff short]

end Point

theorem toNat_cappedSum (a b : UInt64) :
    (cappedSum a b).toNat = min (a.toNat + b.toNat) (2 ^ 64 - 1) := by
  have size : UInt64.size = 2 ^ 64 := rfl
  have last : (UInt64.ofNat (UInt64.size - 1)).toNat = 2 ^ 64 - 1 := rfl
  unfold cappedSum
  by_cases fits : a.toNat + b.toNat < UInt64.size
  · rw [if_pos fits, UInt64.toNat_add, Nat.mod_eq_of_lt fits]
    omega
  · rw [if_neg fits, last]
    omega

namespace Span

variable {text : String}

/-- Holding the sum at the largest count cannot be seen in a text that is
shorter, and the ends are in order. -/
theorem ofText_eq (short : text.length < 2 ^ 32) (start length : UInt64) :
    ofText text start length =
      ⟨.atOffset text.toList start.toNat,
        .atOffset text.toList (start.toNat + length.toNat)⟩ := by
  have sum : Point.atOffset text.toList (cappedSum start length).toNat =
      Point.atOffset text.toList (start.toNat + length.toNat) := by
    rw [← Point.atOffset_min, ← Point.atOffset_min _ (start.toNat + length.toNat),
      String.length_toList, toNat_cappedSum]
    congr 1
    omega
  have ordered : Point.atOffset text.toList start.toNat ≤
      Point.atOffset text.toList (start.toNat + length.toNat) := by
    rw [Point.atOffset_le_iff (by rwa [String.length_toList])]
    omega
  rw [ofText, sum, between, if_pos ordered]

example : ofText "let a = 1;\nlet b = a +;\n" 15 1 = ⟨⟨1, 4⟩, ⟨1, 5⟩⟩ := by decide +kernel

/-- The span of some characters holds the points of these characters and of no
others, however large the start and the length are. Its ends are the points at
both offsets, taken back to the end of the text and in this order. On the way
through the text every count has room for one more. -/
theorem ofText_holds_iff (text : String) (start length : UInt64)
    (short : text.length < 2 ^ 32) :
    (∀ i < text.length, ∀ p : Point, p.Follows (text.toList.take i) →
        ((ofText text start length).holds p = true ↔
          start.toNat ≤ i ∧ i < start.toNat + length.toNat)) ∧
      (ofText text start length).start.Follows
          (text.toList.take (min start.toNat text.length)) ∧
        (ofText text start length).stop.Follows
            (text.toList.take (min (start.toNat + length.toNat) text.length)) ∧
          ∀ k < text.length, (Point.atOffset text.toList k).Follows (text.toList.take k) ∧
            (Point.atOffset text.toList k).HasRoom := by
  have shortList : text.toList.length < 2 ^ 32 := by rwa [String.length_toList]
  rw [ofText_eq short]
  refine ⟨fun i hi p hp => ?_, ?_, ?_, fun k hk => ?_⟩
  · rw [hp.unique (Point.follows_atOffset shortList i), holds, decide_eq_true_iff,
      Point.atOffset_le_iff shortList, Point.atOffset_lt_iff shortList, String.length_toList]
    omega
  · have follows := Point.follows_atOffset shortList (min start.toNat text.toList.length)
    rwa [Point.atOffset_min, String.length_toList] at follows
  · have follows := Point.follows_atOffset shortList
      (min (start.toNat + length.toNat) text.toList.length)
    rwa [Point.atOffset_min, String.length_toList] at follows
  · exact ⟨Point.follows_atOffset shortList k,
      Point.hasRoom_atOffset shortList (by rwa [String.length_toList])⟩

/-- From the line feed on, with a length that the sum has no room for. -/
theorem ofText_holds_iff_lineFeed :
    ("a\nbc".length < 2 ^ 32 ∧ (⟨0, 1⟩ : Point).Follows ("a\nbc".toList.take 1) ∧
        (⟨1, 1⟩ : Point).Follows ("a\nbc".toList.take 3)) ∧
      (ofText "a\nbc" 1 18446744073709551615).holds ⟨0, 1⟩ = true ∧
        (ofText "a\nbc" 1 18446744073709551615).holds ⟨1, 1⟩ = true ∧
          (ofText "a\nbc" 2 18446744073709551615).holds ⟨0, 1⟩ = false := by
  have short : "a\nbc".length < 2 ^ 32 := by decide
  have lineFeed : (⟨0, 1⟩ : Point).Follows ("a\nbc".toList.take 1) := ⟨by decide, by decide⟩
  have last : (⟨1, 1⟩ : Point).Follows ("a\nbc".toList.take 3) := ⟨by decide, by decide⟩
  obtain ⟨held, -⟩ := ofText_holds_iff "a\nbc" 1 18446744073709551615 short
  obtain ⟨later, -⟩ := ofText_holds_iff "a\nbc" 2 18446744073709551615 short
  refine ⟨⟨short, lineFeed, last⟩, (held 1 (by decide) _ lineFeed).2 (by decide),
    (held 3 (by decide) _ last).2 (by decide), ?_⟩
  rw [Bool.eq_false_iff, Ne, later 1 (by decide) _ lineFeed]
  decide

end Span

end DiagnosticFeed
