import DiagnosticFeed.Proofs.FileKey.Below
import DiagnosticFeed.Proofs.FileKey.Drift

/-!
# Keys that climb out of a root

A path that is not rooted may climb above its start. Such a key is taken to lie
below the single dot, and below every key of fewer steps up, although it leads
out of the place that these stand for (`Escapes`). These are the only roots that
anything escapes from (`exists_escapes_iff`), and the files that do are those
with more steps up than the root (`escapes_iff`).
-/

namespace DiagnosticFeed

namespace PathParts

open Segment (up)

variable {p : PathParts} {a b : List Char}

theorem IsNormal.splitOn_tail (h : p.IsNormal) (some_segment : p.segments ≠ []) :
    p.tail.splitOn '/' = (if p.rooted then [[]] else []) ++ p.segments := by
  have clean : ∀ s ∈ p.segments, '/' ∉ s := fun s hs => (h.reduced.isClean s hs).2.2.1
  have pieces := List.splitOn_intercalate '/' clean some_segment
  rw [tail]
  cases p.rooted with
  | true => rw [if_pos rfl, if_pos rfl, List.singleton_append, Segment.splitOn_slash_cons, pieces]; rfl
  | false => exact pieces

theorem eq_nil_of_segments_eq_nil (bare : p.segments = []) (eq : p.tail = a ++ '/' :: b) :
    a = [] ∧ b = [] := by
  rw [tail, bare] at eq
  cases rooted : p.rooted with
  | true => simpa [rooted, List.cons_eq_append_iff] using eq
  | false => simp [rooted] at eq

/-- Where a step up stands behind a slash, nothing but steps up stands in front
of it. -/
theorem IsNormal.exists_climbs_of_tail_eq (h : p.IsNormal) (eq : p.tail = a ++ '/' :: b)
    (mem : up ∈ b.splitOn '/') : ∃ n, a = ['/'].intercalate (List.replicate (n + 1) up) := by
  have some_segment : p.segments ≠ [] := by
    intro bare
    rw [(eq_nil_of_segments_eq_nil bare eq).2] at mem
    simp [up] at mem
  have pieces := h.splitOn_tail some_segment
  have reduced := h.reduced
  rw [eq, List.splitOn_append_cons_self] at pieces
  obtain ⟨s, before, aPieces⟩ := List.exists_cons_of_ne_nil (List.splitOn_ne_nil '/' a)
  cases rooted : p.rooted with
  | true =>
      rw [aPieces, rooted, if_pos rfl, List.cons_append, List.singleton_append,
        List.cons.injEq] at pieces
      rw [← pieces.2, rooted] at reduced
      cases (reduced.up_before mem).1
  | false =>
      rw [rooted, if_neg Bool.false_ne_true, List.nil_append] at pieces
      rw [← pieces] at reduced
      have onlyUp : a.splitOn '/' = List.replicate (before.length + 1) up :=
        List.eq_replicate_iff.2 ⟨by rw [aPieces, List.length_cons], (reduced.up_before mem).2⟩
      exact ⟨before.length, by rw [← onlyUp, List.intercalate_splitOn]⟩

/-- Text behind a drive ends with a slash only at the root. -/
theorem IsNormal.eq_nil_of_tail_eq (h : p.IsNormal) (eq : p.tail = a ++ ['/']) : a = [] := by
  by_cases some_segment : p.segments = []
  · exact (eq_nil_of_segments_eq_nil some_segment eq).1
  · have pieces := h.splitOn_tail some_segment
    rw [eq, List.splitOn_append_cons_self, List.splitOn_nil] at pieces
    have last := congrArg List.getLast? pieces
    rw [List.getLast?_concat, List.getLast?_append_of_ne_nil _ some_segment] at last
    exact absurd rfl (h.reduced.isClean [] (List.mem_of_getLast? last.symm)).1

/-- Text with a slash in it is cut there behind the drive. -/
theorem IsNormal.exists_tail_eq (h : p.IsNormal) (eq : p.written = a ++ '/' :: b) :
    ∃ c, p.tail = c ++ '/' :: b ∧ ∀ segments, c = ['/'].intercalate segments →
      a = (⟨p.drive, false, segments⟩ : PathParts).written := by
  cases drive : p.drive with
  | none =>
      rw [written_of_none drive] at eq
      refine ⟨a, eq, fun segments joined => ?_⟩
      rw [written_of_none rfl]
      exact joined
  | some letter =>
      rw [written_of_some drive] at eq
      match a with
      | [] =>
          have slash : letter = '/' := (List.cons.inj eq).1
          exact absurd (h.drive_isAlpha letter drive) (by rw [slash]; decide)
      | [c] =>
          have slash : ':' = '/' := (List.cons.inj (List.cons.inj eq).2).1
          exact absurd slash (by decide)
      | c :: d :: a =>
          rw [List.cons_append, List.cons_append, List.cons.injEq, List.cons.injEq] at eq
          obtain ⟨rfl, rfl, eq⟩ := eq
          refine ⟨a, eq, fun segments joined => ?_⟩
          rw [written_of_some rfl, joined]
          rfl

theorem IsNormal.drifts_written_of_some (h : p.IsNormal) {letter : Char}
    (drive : p.drive = some letter) : drifts p.written = false := by
  have notLower : letter.isLower = false := by
    rw [← h.drive_toUpper letter drive]
    exact isLower_toUpper letter
  rw [written_of_some drive]
  simp [drifts, notLower, h.head?_splitOn_tail_ne]

theorem IsNormal.concat_up (h : p.IsNormal) (some_segment : p.segments ≠ [])
    (ups : ∀ s ∈ p.segments, s = up) :
    (⟨p.drive, p.rooted, p.segments ++ [up]⟩ : PathParts).IsNormal where
  reduced := by
    obtain ⟨climbs, names, segments, isName, root⟩ := h.reduced
    have noNames : names = [] := by
      refine List.eq_nil_iff_forall_not_mem.2 fun s hs => (isName s hs).ne_up (ups s ?_)
      rw [segments]
      exact List.mem_append_right _ hs
    rw [noNames, List.append_nil] at segments
    refine ⟨climbs + 1, [], by simp [segments, List.replicate_succ'], by simp, fun rooted => ?_⟩
    rw [root rooted] at segments
    exact absurd segments some_segment
  drive_isAlpha := h.drive_isAlpha
  drive_toUpper := h.drive_toUpper

theorem written_concat_up (some_segment : p.segments ≠ []) :
    (⟨p.drive, p.rooted, p.segments ++ [up]⟩ : PathParts).written = p.written ++ '/' :: up := by
  obtain ⟨s, rest, segments⟩ := List.exists_cons_of_ne_nil some_segment
  simp [written, front, segments, Segment.intercalate_cons]

theorem drifts_concat_up (h : p.IsNormal) (some_segment : p.segments ≠ [])
    (ups : ∀ s ∈ p.segments, s = up) : drifts (p.written ++ '/' :: up) = false := by
  rw [← written_concat_up some_segment]
  have normal := h.concat_up some_segment ups
  cases drive : p.drive with
  | some letter =>
      rw [drive] at normal
      exact normal.drifts_written_of_some rfl
  | none =>
      obtain ⟨s, rest, segments⟩ := List.exists_cons_of_ne_nil some_segment
      obtain rfl : s = up := ups s (by simp [segments])
      cases p.rooted <;> simp [written, front, segments, Segment.intercalate_cons, up, drifts]

end PathParts

namespace FileKey

open PathParts
open Segment (up)

variable {k root : FileKey}

theorem exists_written (h : k.text ≠ ".") : ∃ p : PathParts, p.IsNormal ∧ k.chars = p.written := by
  obtain ⟨path, rfl⟩ := exists_ofPath k
  have chars := toList_normalText path
  by_cases nothing : (scan path).resolve.written = []
  · rw [if_pos nothing] at chars
    exact absurd (String.toList_injective chars) h
  · rw [if_neg nothing] at chars
    exact ⟨_, isNormal_resolve_scan path, chars⟩

theorem exists_chars_eq {p : PathParts} (h : p.IsNormal) (ne : p.written ≠ [])
    (stays : PathParts.drifts p.written = false) : ∃ k : FileKey, k.chars = p.written := by
  refine ⟨ofPath (String.ofList p.written), ?_⟩
  have read : scan (String.ofList p.written) = ofUnified p.written := by
    rw [scan, String.toList_ofList, unify_of_backslash_not_mem h.backslash_not_mem_written]
  have same := h.written_resolve_ofUnified.2 stays
  have chars := toList_normalText (String.ofList p.written)
  rwa [read, same, if_neg ne] at chars

/-- A key is cut at a slash into a root that it lies below and what is left, the
slash going with the root if the root ends with one. -/
theorem cut_of_below? {rest : List Char} (notDot : root.text ≠ ".")
    (left : k.below? root = some rest) :
    (k.chars = root.chars ∧ rest = []) ∨
      ∃ front, k.chars = front ++ '/' :: rest ∧
        (root.chars = front ∨ root.chars = front ++ ['/']) := by
  rcases (below?_eq_some_iff notDot).1 left with same | ⟨last, eq⟩ | ⟨-, eq⟩
  · exact Or.inl same
  · obtain ⟨front, rootEq⟩ := List.getLast?_eq_some_iff.1 last
    refine Or.inr ⟨front, ?_, Or.inr rootEq⟩
    rw [eq, rootEq, List.append_assoc, List.singleton_append]
  · exact Or.inr ⟨root.chars, eq, Or.inl rfl⟩

/-! ## Counting steps up -/

def climbs (k : FileKey) : Nat := k.components.count up

theorem climbs_eq_count (k : FileKey) : k.climbs = (k.chars.splitOn '/').count up :=
  List.count_filter (by decide)

/-- The steps up of a key are those of a root that it lies below and those that
are left. -/
theorem climbs_of_below? {rest : List Char} (h : k.below? root = some rest) :
    k.climbs = root.climbs + (rest.splitOn '/').count up := by
  simp only [climbs_eq_count]
  by_cases dot : root.text = "."
  · rw [below?_of_dot dot] at h
    obtain rfl : k.chars = rest := by
      split at h
      · cases h
      · exact Option.some_inj.1 h
    have none' : (root.chars.splitOn '/').count up = 0 := by
      rw [chars, dot]
      decide
    rw [none', Nat.zero_add]
  · rcases cut_of_below? dot h with ⟨eq, rfl⟩ | ⟨front, eq, rootEq | rootEq⟩
    · rw [eq]
      rfl
    · rw [eq, rootEq, List.splitOn_append_cons_self, List.count_append]
    · rw [eq, rootEq, List.splitOn_append_cons_self, List.splitOn_append_cons_self,
        List.count_append, List.count_append]
      rfl

/-- What is left of a key below a root leads up from there, out of the place that
the root stands for. -/
def Escapes (k root : FileKey) : Prop :=
  ∃ rest, k.below? root = some rest ∧ up ∈ rest.splitOn '/'

theorem escapes_iff : k.Escapes root ↔ k.isWithin root = true ∧ root.climbs < k.climbs := by
  rw [isWithin, Option.isSome_iff_exists]
  constructor
  · rintro ⟨rest, left, mem⟩
    have positive := List.count_pos_iff.2 mem
    have sum := climbs_of_below? left
    exact ⟨⟨rest, left⟩, by omega⟩
  · rintro ⟨⟨rest, left⟩, less⟩
    have sum := climbs_of_below? left
    exact ⟨rest, left, List.count_pos_iff.1 (by omega)⟩

/-! ## Roots that keys escape from -/

/-- A key of nothing but steps up, behind a drive if it has one. -/
def OnlyClimbs (k : FileKey) : Prop :=
  ∃ p : PathParts, p.IsNormal ∧ k.chars = p.written ∧ p.segments ≠ [] ∧ ∀ s ∈ p.segments, s = up

theorem Escapes.onlyClimbs (h : k.Escapes root) (notDot : root.text ≠ ".") : root.OnlyClimbs := by
  obtain ⟨rest, left, mem⟩ := h
  rcases cut_of_below? notDot left with ⟨-, rfl⟩ | ⟨a, eq, rootEq⟩
  · simp [up] at mem
  have kNotDot : k.text ≠ "." := by
    intro dot
    have slash : '/' ∈ k.chars := by simp [eq]
    rw [chars, dot] at slash
    exact absurd slash (by decide)
  obtain ⟨p, normal, kChars⟩ := exists_written kNotDot
  obtain ⟨c, tailEq, aEq⟩ := normal.exists_tail_eq (kChars.symm.trans eq)
  obtain ⟨n, climbsEq⟩ := normal.exists_climbs_of_tail_eq tailEq mem
  have aWritten := aEq _ climbsEq
  rcases rootEq with rootEq | rootEq
  · refine ⟨⟨p.drive, false, List.replicate (n + 1) up⟩, ⟨⟨n + 1, [], by simp, by simp, by simp⟩,
      normal.drive_isAlpha, normal.drive_toUpper⟩, rootEq.trans aWritten, by simp, ?_⟩
    exact fun s hs => List.eq_of_mem_replicate hs
  · -- a key that ends with a slash has no segments, and steps up are some
    obtain ⟨q, qNormal, rootChars⟩ := exists_written notDot
    obtain ⟨d, qTail, aEq'⟩ := qNormal.exists_tail_eq (rootChars.symm.trans rootEq)
    have bare := aEq' [] (qNormal.eq_nil_of_tail_eq qTail)
    rw [aWritten] at bare
    cases pDrive : p.drive <;> cases qDrive : q.drive <;>
      simp [pDrive, qDrive, written, front, List.replicate_succ, Segment.intercalate_cons, up] at bare

theorem OnlyClimbs.exists_escapes (h : root.OnlyClimbs) (notDot : root.text ≠ ".") :
    ∃ k : FileKey, k.Escapes root := by
  obtain ⟨p, normal, rootChars, some_segment, ups⟩ := h
  have written := written_concat_up some_segment
  obtain ⟨k, kChars⟩ := exists_chars_eq (normal.concat_up some_segment ups)
    (by rw [written]; simp) (by rw [written]; exact drifts_concat_up normal some_segment ups)
  rw [written, ← rootChars] at kChars
  refine ⟨k, escapes_iff.2 ⟨(isWithin_iff notDot).2 ⟨_, kChars, Or.inr (Or.inr rfl)⟩, ?_⟩⟩
  have one : (up.splitOn '/').count up = 1 := by decide
  rw [climbs_eq_count, climbs_eq_count, kChars, List.splitOn_append_cons_self, List.count_append,
    one]
  exact Nat.lt_succ_self _

/-- Keys escape from the single dot and from steps up, and from no other root. -/
theorem exists_escapes_iff (root : FileKey) :
    (∃ k : FileKey, k.Escapes root) ↔ root.text = "." ∨ root.OnlyClimbs := by
  by_cases dot : root.text = "."
  · refine iff_of_true ⟨ofPath "..", ?_⟩ (Or.inl dot)
    rw [show root = ofPath "." from ext dot]
    exact ⟨['.', '.'], by decide +kernel⟩
  · constructor
    · rintro ⟨k, escapes⟩
      exact Or.inr (escapes.onlyClimbs dot)
    · rintro (isDot | climbs)
      · exact absurd isDot dot
      · exact climbs.exists_escapes dot

end FileKey

end DiagnosticFeed
