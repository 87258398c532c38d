import DiagnosticFeed.Text.Lines
import Mathlib.Data.List.Basic

/-!
# The first lines of a text

The beginning of a text up to one of its line feeds has the lines of the text
up to there.
-/

namespace DiagnosticFeed

namespace Text

/-- The characters up to the line feed with some number, that one included. -/
def throughFeed : Nat → List Char → List Char
  | 0, _ => []
  | _, [] => []
  | n + 1, c :: cs => c :: throughFeed (if c = '\n' then n else n + 1) cs

/-- The first lines of a text, each with its line feed. -/
def firstLines (n : Nat) (text : String) : String := String.ofList (throughFeed n text.toList)

theorem throughFeed_prefix (n : Nat) (cs : List Char) : throughFeed n cs <+: cs := by
  induction cs generalizing n with
  | nil => cases n <;> exact List.prefix_rfl
  | cons c cs ih =>
      cases n with
      | zero => exact List.nil_prefix
      | succ n => exact List.prefix_cons_inj c |>.2 (ih _)

theorem firstLines_append (n : Nat) (text : String) : ∃ rest, text = firstLines n text ++ rest := by
  obtain ⟨rest, eq⟩ := throughFeed_prefix n text.toList
  refine ⟨String.ofList rest, ?_⟩
  rw [firstLines, ← String.ofList_append, eq, String.ofList_toList]

/-- Behind its last line feed, such a beginning has nothing more. -/
theorem splitOn_throughFeed {n : Nat} {cs : List Char} (h : n < (cs.splitOn '\n').length) :
    (throughFeed n cs).splitOn '\n' = (cs.splitOn '\n').take n ++ [[]] := by
  induction cs generalizing n with
  | nil =>
      obtain rfl : n = 0 := by simpa using h
      rfl
  | cons c cs ih =>
      cases n with
      | zero => rfl
      | succ n =>
          rw [List.splitOn_cons_eq_if_modifyHead] at h ⊢
          rw [throughFeed, List.splitOn_cons_eq_if_modifyHead]
          by_cases feed : c = '\n'
          · simp only [feed, beq_self_eq_true, if_true] at h ⊢
            rw [ih (Nat.lt_of_succ_lt_succ h)]
            rfl
          · simp only [feed, beq_iff_eq, if_false, List.length_modifyHead] at h ⊢
            rw [ih h]
            cases pieces : cs.splitOn '\n' with
            | nil => exact absurd pieces (List.splitOn_ne_nil _ _)
            | cons piece rest => rfl

theorem linesOfPieces_cons {piece : List Char} {rest : List (List Char)} (more : rest ≠ []) :
    linesOfPieces (piece :: rest) = withoutReturn piece :: linesOfPieces rest := by
  cases rest with
  | nil => exact absurd rfl more
  | cons next rest => rfl

theorem length_linesOfPieces_le (pieces : List (List Char)) :
    (linesOfPieces pieces).length ≤ pieces.length := by
  induction pieces with
  | nil => exact Nat.le_refl 0
  | cons piece rest ih =>
      cases rest with
      | nil =>
          rw [linesOfPieces]
          split <;> simp
      | cons next rest => exact Nat.succ_le_succ ih

theorem linesOfPieces_take {n : Nat} {pieces : List (List Char)} (h : n < pieces.length) :
    linesOfPieces (pieces.take n ++ [[]]) = (linesOfPieces pieces).take n := by
  induction pieces generalizing n with
  | nil => cases h
  | cons piece rest ih =>
      cases n with
      | zero => rfl
      | succ n =>
          have enough : n < rest.length := Nat.lt_of_succ_lt_succ h
          rw [List.take_succ_cons, List.cons_append, linesOfPieces_cons (by simp), ih enough,
            linesOfPieces_cons (List.ne_nil_of_length_pos (Nat.zero_lt_of_lt enough)),
            List.take_succ_cons]

theorem lines_firstLines {n : Nat} {text : String} (h : n < (lines text).length) :
    lines (firstLines n text) = (lines text).take n := by
  have enough : n < (text.toList.splitOn '\n').length := by
    rw [lines, List.length_map] at h
    exact Nat.lt_of_lt_of_le h (length_linesOfPieces_le _)
  rw [lines, firstLines, String.toList_ofList, splitOn_throughFeed enough,
    linesOfPieces_take enough, List.map_take]
  rfl

end Text

end DiagnosticFeed
