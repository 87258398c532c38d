import DiagnosticFeed.Proofs.FileKey.Drift
import Mathlib.Logic.Relation

/-!
# Paths that lead to the same place

Segments that lead nowhere may be dropped from a path: an empty one, a single
dot, a step down together with the step up behind it, and a step up at the root
(`Drops`). In what order this is done is left open. Two paths on one drive, both
rooted or both not, have the same key exactly if one can be made from the other
by dropping such segments and putting them in (`ofPath_eq_iff_eqvGen`). A walk
drops all of them in one pass, so nothing is left to drop in what a key is
written with.
-/

namespace DiagnosticFeed

namespace PathParts

open Relation (EqvGen)
open Segment (up here)

/-- The second path is the first one less something that leads nowhere. -/
inductive Drops (rooted : Bool) : List Segment → List Segment → Prop where
  | empty (before after : List Segment) :
      Drops rooted (before ++ [] :: after) (before ++ after)
  | here (before after : List Segment) :
      Drops rooted (before ++ Segment.here :: after) (before ++ after)
  | back (before after : List Segment) {s : Segment} (ne_nil : s ≠ []) (ne_here : s ≠ Segment.here)
      (ne_up : s ≠ Segment.up) :
      Drops rooted (before ++ s :: Segment.up :: after) (before ++ after)
  | root (after : List Segment) (h : rooted = true) : Drops rooted (Segment.up :: after) after

variable {rooted : Bool} {segments a b : List Segment}

/-! ## A walk does not see what is dropped -/

theorem enter_up_enter (rooted : Bool) (stack : List Segment) {s : Segment} (ne_nil : s ≠ [])
    (ne_here : s ≠ here) (ne_up : s ≠ up) : enter rooted (enter rooted stack s) up = stack := by
  have down : enter rooted stack s = s :: stack := by simp [enter, ne_nil, ne_here, ne_up]
  rw [down]
  simp only [enter, if_neg (show ¬(up = [] ∨ up = here) by decide), ne_eq, not_true_eq_false,
    if_false, ne_up, not_false_eq_true, if_true]

theorem walk_eq_of_drops (h : Drops rooted a b) : walk rooted a = walk rooted b := by
  cases h with
  | empty before after =>
      simp only [walk, List.foldl_append, List.foldl_cons, enter_blank _ _ (Or.inl rfl)]
  | here before after =>
      simp only [walk, List.foldl_append, List.foldl_cons, enter_blank _ _ (Or.inr rfl)]
  | back before after ne_nil ne_here ne_up =>
      simp only [walk, List.foldl_append, List.foldl_cons,
        enter_up_enter _ _ ne_nil ne_here ne_up]
  | root after h =>
      rw [h]
      rfl

theorem walk_eq_of_eqvGen (h : EqvGen (Drops rooted) a b) : walk rooted a = walk rooted b := by
  induction h with
  | rel a b drops => exact walk_eq_of_drops drops
  | refl a => rfl
  | symm a b _ ih => exact ih.symm
  | trans a b c _ _ first second => exact first.trans second

/-! ## A walk drops segments only -/

theorem Drops.append (h : Drops rooted a b) (more : List Segment) :
    Drops rooted (a ++ more) (b ++ more) := by
  cases h with
  | empty before after => simpa using Drops.empty before (after ++ more)
  | here before after => simpa using Drops.here before (after ++ more)
  | back before after ne_nil ne_here ne_up =>
      simpa using Drops.back before (after ++ more) ne_nil ne_here ne_up
  | root _ h => exact Drops.root _ h

theorem eqvGen_append (h : EqvGen (Drops rooted) a b) (more : List Segment) :
    EqvGen (Drops rooted) (a ++ more) (b ++ more) := by
  induction h with
  | rel a b drops => exact .rel _ _ (drops.append more)
  | refl a => exact .refl _
  | symm a b _ ih => exact .symm _ _ ih
  | trans a b c _ _ first second => exact .trans _ _ _ first second

/-- One step of a walk drops the segment that it enters, or nothing, or the
step down that it takes back. -/
theorem eqvGen_enter {stack : List Segment} (h : Reduced rooted stack.reverse) (s : Segment) :
    EqvGen (Drops rooted) (stack.reverse ++ [s]) (enter rooted stack s).reverse := by
  by_cases blank : s = [] ∨ s = here
  · rw [enter_blank rooted stack blank]
    refine .rel _ _ ?_
    rcases blank with rfl | rfl
    · simpa using @Drops.empty rooted stack.reverse []
    · simpa using @Drops.here rooted stack.reverse []
  by_cases isUp : s = up
  · rw [isUp]
    rcases enter_up_cases h with ⟨name, below, rfl, isName, -, eq⟩ | ⟨rfl, rfl, eq⟩ | ⟨-, eq⟩
    · rw [eq, List.reverse_cons, List.append_assoc]
      refine .rel _ _ ?_
      simpa using @Drops.back rooted below.reverse [] name isName.ne_nil isName.ne_here
        isName.ne_up
    · rw [eq]
      exact .rel _ _ (.root [] rfl)
    · rw [eq, List.reverse_cons]
      exact .refl _
  · have down : enter rooted stack s = s :: stack := by
      rw [not_or] at blank
      simp [enter, blank.1, blank.2, isUp]
    rw [down, List.reverse_cons]
    exact .refl _

theorem eqvGen_walk (rooted : Bool) (clean : ∀ s ∈ segments, s.IsClean) :
    EqvGen (Drops rooted) segments (walk rooted segments).reverse := by
  induction segments using List.reverseRecOn with
  | nil => exact .refl _
  | append_singleton segments s ih =>
      have cleanBefore : ∀ t ∈ segments, t.IsClean := fun t ht => clean t (by simp [ht])
      have step := eqvGen_enter (reduced_walk rooted cleanBefore) s
      have walked : walk rooted (segments ++ [s]) = enter rooted (walk rooted segments) s := by
        simp [walk]
      rw [walked]
      exact .trans _ _ _ (eqvGen_append (ih cleanBefore) [s]) step

theorem eqvGen_iff_walk_eq (cleanA : ∀ s ∈ a, s.IsClean) (cleanB : ∀ s ∈ b, s.IsClean) :
    EqvGen (Drops rooted) a b ↔ walk rooted a = walk rooted b := by
  refine ⟨walk_eq_of_eqvGen, fun same => ?_⟩
  have first := eqvGen_walk rooted cleanA
  have second := eqvGen_walk rooted cleanB
  rw [same] at first
  exact .trans _ _ _ first (.symm _ _ second)

/-! ## What a walk leaves -/

/-- Nothing can be dropped from reduced segments. -/
theorem Reduced.not_drops (h : Reduced rooted segments) (fewer : List Segment) :
    ¬Drops rooted segments fewer := by
  intro drops
  have clean := h.isClean
  cases drops with
  | empty before after => exact (clean [] (by simp)).1 rfl
  | here before after => exact (clean here (by simp)).2.1 rfl
  | @back before after s ne_nil ne_here ne_up =>
      rw [← List.singleton_append, ← List.append_assoc] at h
      have ups := (h.up_before List.mem_cons_self).2
      exact ne_up (ups s (by simp))
  | root after atRoot =>
      rw [← List.nil_append (up :: fewer)] at h
      have unrooted := (h.up_before List.mem_cons_self).1
      rw [atRoot] at unrooted
      cases unrooted

/-- Normal parts on one drive, both rooted or both not, are written alike exactly
if they have the same segments. -/
theorem IsNormal.written_eq_iff {p q : PathParts} (hp : p.IsNormal) (hq : q.IsNormal)
    (drive : p.drive = q.drive) (rooted : p.rooted = q.rooted) :
    p.written = q.written ↔ p.segments = q.segments := by
  have front : p.front = q.front := by rw [PathParts.front, PathParts.front, drive, rooted]
  rw [written, written, front, List.append_right_inj]
  constructor
  · intro joined
    have pSegments := walk_splitOn_intercalate hp.reduced
    rw [joined, rooted, walk_splitOn_intercalate hq.reduced] at pSegments
    exact pSegments.symm
  · intro segments
    rw [segments]

/-- Normal parts are not written as a single dot. -/
theorem IsNormal.written_ne_here {p : PathParts} (h : p.IsNormal) : p.written ≠ here := by
  intro eq
  have stays : drifts p.written = false := by
    rw [eq]
    rfl
  have again := h.written_resolve_ofUnified.2 stays
  rw [eq] at again
  cases again

end PathParts

namespace FileKey

open PathParts
open Relation (EqvGen)

theorem scan_segments_isClean (path : String) : ∀ s ∈ (scan path).segments, s.IsClean := by
  have clean := backslash_not_mem_unify path.toList
  have ofRest_isClean : ∀ drive rest, '\\' ∉ rest → ∀ s ∈ (ofRest drive rest).segments, s.IsClean :=
    fun _ _ clean _ hs => Segment.isClean_of_mem_splitOn clean hs
  rcases ofUnified_cases (path.toList.map unify) with ⟨letter, rest, eq, alpha⟩ | noDrive
  · rw [eq] at clean
    rw [scan, eq, ofUnified_of_isAlpha alpha]
    exact ofRest_isClean _ rest (by simp_all)
  · rw [scan, ofUnified_of_not_isAlpha noDrive]
    exact ofRest_isClean none _ clean

theorem ofPath_eq_iff_written {p q : String} :
    ofPath p = ofPath q ↔ (scan p).resolve.written = (scan q).resolve.written := by
  rw [FileKey.ext_iff, ← String.toList_inj, text_ofPath, text_ofPath, toList_normalText,
    toList_normalText]
  have pNotDot := (isNormal_resolve_scan p).written_ne_here
  have qNotDot := (isNormal_resolve_scan q).written_ne_here
  split_ifs with pNothing qNothing qNothing
  · simp [pNothing, qNothing]
  · exact iff_of_false (Ne.symm qNotDot) (by rw [pNothing]; exact Ne.symm qNothing)
  · exact iff_of_false pNotDot (by rw [qNothing]; exact pNothing)
  · rfl

/-- Paths on one drive, both rooted or both not, have one key exactly if they are
walked to the same segments. -/
theorem ofPath_eq_iff_walk {p q : String} (drive : (scan p).drive = (scan q).drive)
    (rooted : (scan p).rooted = (scan q).rooted) :
    ofPath p = ofPath q ↔
      walk (scan p).rooted (scan p).segments = walk (scan p).rooted (scan q).segments := by
  have normal := isNormal_resolve_scan p
  rw [ofPath_eq_iff_written, normal.written_eq_iff (isNormal_resolve_scan q) drive rooted, resolve,
    resolve, List.reverse_inj, rooted]

/-- The key is the text of the parts, or a single dot if there is no text. -/
def IsWrittenAs (k : FileKey) (p : PathParts) : Prop :=
  k.chars = if p.written = [] then Segment.here else p.written

/-- Of two paths on one drive, both rooted or both not, the keys are equal exactly
if dropping segments that lead nowhere, and putting such in, makes one path from
the other. A key is written with segments from which nothing can be dropped:
steps up, unless the path is rooted, and then names without separators. -/
theorem ofPath_eq_iff_eqvGen {p q : String} (drive : (scan p).drive = (scan q).drive)
    (rooted : (scan p).rooted = (scan q).rooted) :
    (ofPath p = ofPath q ↔
        EqvGen (Drops (scan p).rooted) (scan p).segments (scan q).segments) ∧
      ∀ path, ∃ segments, (ofPath path).IsWrittenAs { scan path with segments } ∧
        Reduced (scan path).rooted segments ∧
          ∀ fewer, ¬Drops (scan path).rooted segments fewer := by
  constructor
  · rw [ofPath_eq_iff_walk drive rooted]
    exact (eqvGen_iff_walk_eq (scan_segments_isClean p) (scan_segments_isClean q)).symm
  · intro path
    have reduced : Reduced (scan path).rooted (scan path).resolve.segments :=
      (isNormal_resolve_scan path).reduced
    exact ⟨_, toList_normalText path, reduced, reduced.not_drops⟩

/-- A path with a step up at the root of its drive, one that is taken back, and
empty segments. -/
theorem ofPath_eq_iff_eqvGen_drive :
    (scan "c:\\..\\work\\.\\x\\..\\a.ts").drive = (scan "C:/work//a.ts/").drive ∧
      (scan "c:\\..\\work\\.\\x\\..\\a.ts").rooted = (scan "C:/work//a.ts/").rooted ∧
        EqvGen (Drops (scan "c:\\..\\work\\.\\x\\..\\a.ts").rooted)
          (scan "c:\\..\\work\\.\\x\\..\\a.ts").segments (scan "C:/work//a.ts/").segments := by
  have drive : (scan "c:\\..\\work\\.\\x\\..\\a.ts").drive = (scan "C:/work//a.ts/").drive := by
    decide +kernel
  have rooted : (scan "c:\\..\\work\\.\\x\\..\\a.ts").rooted = (scan "C:/work//a.ts/").rooted := by
    decide +kernel
  have same : ofPath "c:\\..\\work\\.\\x\\..\\a.ts" = ofPath "C:/work//a.ts/" := by
    decide +kernel
  exact ⟨drive, rooted, (ofPath_eq_iff_eqvGen drive rooted).1.1 same⟩

end FileKey

end DiagnosticFeed
