import DiagnosticFeed.FileKey
import Mathlib.Data.List.Induction

/-!
# Walking along segments

A walk takes every redundant segment out: what it leaves are steps up, which
only an unrooted path has, and then names (`Reduced`). A walk along such
segments takes nothing out.
-/

namespace DiagnosticFeed

namespace Segment

/-- A segment without separators. -/
def IsClean (s : Segment) : Prop := '/' ∉ s ∧ '\\' ∉ s

/-- A segment that leads one level down. -/
structure IsName (s : Segment) : Prop where
  ne_nil : s ≠ []
  ne_here : s ≠ here
  ne_up : s ≠ up
  clean : s.IsClean

/-- A segment that text has between two slashes, and that is not empty. -/
structure IsPiece (s : Segment) : Prop where
  ne_nil : s ≠ []
  noSlash : '/' ∉ s

theorem isClean_up : up.IsClean := by
  unfold IsClean up
  decide

/-- The pieces between slashes hold no slash, and no characters of their own. -/
theorem mem_of_mem_splitOn {text : List Char} {s : Segment} (hs : s ∈ text.splitOn '/')
    {c : Char} (hc : c ∈ s) : c ∈ text ∧ c ≠ '/' := by
  induction text generalizing s with
  | nil =>
      rw [List.splitOn_nil, List.mem_singleton] at hs
      rw [hs] at hc
      cases hc
  | cons d text ih =>
      rw [List.splitOn_cons_eq_if_modifyHead] at hs
      by_cases h : d = '/'
      · rw [if_pos (by simp [h]), List.mem_cons] at hs
        rcases hs with rfl | hs
        · cases hc
        · exact (ih hs hc).imp_left (List.mem_cons_of_mem d)
      · rw [if_neg (by simp [h])] at hs
        cases pieces : text.splitOn '/' with
        | nil => exact absurd pieces (List.splitOn_ne_nil _ _)
        | cons first others =>
            rw [pieces, List.modifyHead_cons, List.mem_cons] at hs
            rcases hs with rfl | hs
            · rcases List.mem_cons.1 hc with rfl | hc
              · exact ⟨List.mem_cons_self, h⟩
              · exact (ih (by simp [pieces]) hc).imp_left (List.mem_cons_of_mem d)
            · exact (ih (by simp [pieces, hs]) hc).imp_left (List.mem_cons_of_mem d)

theorem isClean_of_mem_splitOn {text : List Char} (h : '\\' ∉ text) {s : Segment}
    (hs : s ∈ text.splitOn '/') : s.IsClean :=
  ⟨fun slash => (mem_of_mem_splitOn hs slash).2 rfl,
    fun backslash => h (mem_of_mem_splitOn hs backslash).1⟩

theorem splitOn_slash_cons (text : List Char) :
    ('/' :: text).splitOn '/' = [] :: text.splitOn '/' := by
  rw [List.splitOn_cons_eq_if_modifyHead, if_pos (by simp)]

theorem intercalate_cons (s : Segment) (rest : List Segment) :
    ['/'].intercalate (s :: rest) = s ++ rest.flatMap ('/' :: ·) := by
  induction rest generalizing s with
  | nil => simp
  | cons s' rest ih =>
      rw [List.intercalate_cons_cons, ih, List.flatMap_cons]
      simp

theorem mem_of_mem_intercalate {c : Char} {segments : List Segment}
    (h : c ∈ ['/'].intercalate segments) : c = '/' ∨ ∃ s ∈ segments, c ∈ s := by
  cases segments with
  | nil => cases h
  | cons s rest =>
      rw [intercalate_cons, List.mem_append, List.mem_flatMap] at h
      rcases h with h | ⟨t, ht, h⟩
      · exact Or.inr ⟨s, List.mem_cons_self, h⟩
      · exact (List.mem_cons.1 h).imp_right fun hc => ⟨t, List.mem_cons_of_mem s ht, hc⟩

theorem splitOn_intercalate_names {first : Segment} {names : List Segment}
    (clean : first.IsClean) (isName : ∀ s ∈ names, s.IsName) :
    (['/'].intercalate (first :: names)).splitOn '/' = first :: names := by
  refine List.splitOn_intercalate _ (fun s hs => ?_) (by simp)
  rcases List.mem_cons.1 hs with rfl | hs
  · exact clean.1
  · exact (isName s hs).clean.1

/-- Text of pieces has no slash at either end: there would be an empty piece. -/
theorem intercalate_ne_of_isPiece {segments : List Segment} (h : ∀ s ∈ segments, s.IsPiece)
    {a b : List Char} (atEnd : a = [] ∨ b = []) : ['/'].intercalate segments ≠ a ++ '/' :: b := by
  intro eq
  have some_segment : segments ≠ [] := by
    rintro rfl
    simp at eq
  have read := List.splitOn_intercalate '/' (fun s hs => (h s hs).noSlash) some_segment
  rw [eq, List.splitOn_append_cons_self] at read
  refine (h [] ?_).ne_nil rfl
  rw [← read]
  rcases atEnd with rfl | rfl <;> simp

theorem head?_intercalate_pieces_ne {segments : List Segment} (h : ∀ s ∈ segments, s.IsPiece) :
    (['/'].intercalate segments).head? ≠ some '/' := by
  intro slash
  obtain ⟨rest, eq⟩ := List.head?_eq_some_iff.1 slash
  exact intercalate_ne_of_isPiece h (Or.inl rfl) eq

theorem getLast?_intercalate_pieces_ne {segments : List Segment} (h : ∀ s ∈ segments, s.IsPiece) :
    (['/'].intercalate segments).getLast? ≠ some '/' := by
  intro slash
  obtain ⟨front, eq⟩ := List.getLast?_eq_some_iff.1 slash
  exact intercalate_ne_of_isPiece h (Or.inr rfl) eq

end Segment

namespace PathParts

open Segment (up here)

/-- Segments with nothing to resolve: steps up, unless the path is rooted, and
then names. -/
def Reduced (rooted : Bool) (segments : List Segment) : Prop :=
  ∃ climbs names, segments = List.replicate climbs up ++ names ∧
    (∀ s ∈ names, s.IsName) ∧ (rooted = true → climbs = 0)

theorem Reduced.isClean {rooted : Bool} {segments : List Segment} (h : Reduced rooted segments) :
    ∀ s ∈ segments, s ≠ [] ∧ s ≠ here ∧ s.IsClean := by
  obtain ⟨climbs, names, rfl, isName, -⟩ := h
  intro s hs
  rcases List.mem_append.1 hs with hs | hs
  · rw [List.eq_of_mem_replicate hs]
    exact ⟨by decide, by decide, Segment.isClean_up⟩
  · exact ⟨(isName s hs).ne_nil, (isName s hs).ne_here, (isName s hs).clean⟩

theorem Reduced.isPiece {rooted : Bool} {segments : List Segment} (h : Reduced rooted segments) :
    ∀ s ∈ segments, s.IsPiece :=
  fun s hs => ⟨(h.isClean s hs).1, (h.isClean s hs).2.2.1⟩

theorem reduced_nil (rooted : Bool) : Reduced rooted [] := ⟨0, [], rfl, by simp, fun _ => rfl⟩

theorem Reduced.concat {rooted : Bool} {segments : List Segment} (h : Reduced rooted segments)
    {s : Segment} (name : s.IsName) : Reduced rooted (segments ++ [s]) := by
  obtain ⟨climbs, names, rfl, isName, root⟩ := h
  refine ⟨climbs, names ++ [s], List.append_assoc _ _ _, fun t ht => ?_, root⟩
  rcases List.mem_append.1 ht with ht | ht
  · exact isName t ht
  · rw [List.mem_singleton.1 ht]
    exact name

/-- In front of a step up stand steps up only, and the path is not rooted. -/
theorem Reduced.up_before {rooted : Bool} {before after : List Segment}
    (h : Reduced rooted (before ++ after)) (mem : up ∈ after) :
    rooted = false ∧ ∀ s ∈ before, s = up := by
  obtain ⟨climbs, names, eq, isName, root⟩ := h
  have notName : up ∉ names := fun isUp => (isName up isUp).ne_up rfl
  have climbing : climbs ≠ 0 := by
    rintro rfl
    rw [List.replicate_zero, List.nil_append] at eq
    exact notName (eq ▸ List.mem_append_right before mem)
  refine ⟨Bool.eq_false_iff.2 fun rooted => climbing (root rooted), fun s hs => ?_⟩
  rcases List.append_eq_append_iff.1 eq with ⟨more, climbsEq, -⟩ | ⟨more, -, namesEq⟩
  · refine List.eq_of_mem_replicate (n := climbs) ?_
    rw [climbsEq]
    exact List.mem_append_left more hs
  · exact absurd (namesEq ▸ List.mem_append_right more mem) notName

theorem enter_blank (rooted : Bool) (stack : List Segment) {s : Segment}
    (h : s = [] ∨ s = here) : enter rooted stack s = stack := if_pos h

theorem enter_name (rooted : Bool) (stack : List Segment) {s : Segment} (h : s.IsName) :
    enter rooted stack s = s :: stack := by
  simp [enter, h.ne_nil, h.ne_here, h.ne_up]

theorem enter_up_name (rooted : Bool) (below : List Segment) {top : Segment} (h : top.IsName) :
    enter rooted (top :: below) up = below := by
  have notUp : top ≠ ['.', '.'] := h.ne_up
  simp [enter, up, here, notUp]

theorem enter_up_climbs (rooted : Bool) {climbs : Nat} (h : rooted = true → climbs = 0) :
    enter rooted (List.replicate climbs up) up =
      if rooted then [] else List.replicate (climbs + 1) up := by
  cases rooted with
  | true =>
      rw [h rfl]
      rfl
  | false =>
      cases climbs with
      | zero => rfl
      | succ n => simp [enter, List.replicate_succ, up, here]

/-- A step up takes back a step down, or is dropped at the root, or climbs. -/
theorem enter_up_cases {rooted : Bool} {stack : List Segment} (h : Reduced rooted stack.reverse) :
    (∃ name below, stack = name :: below ∧ name.IsName ∧ Reduced rooted below.reverse ∧
        enter rooted stack up = below) ∨
      (rooted = true ∧ stack = [] ∧ enter rooted stack up = []) ∨
        Reduced rooted (up :: stack).reverse ∧ enter rooted stack up = up :: stack := by
  obtain ⟨climbs, names, eq, isName, root⟩ := h
  have stackEq : stack = names.reverse ++ List.replicate climbs up := by
    rw [← List.reverse_reverse stack, eq, List.reverse_append, List.reverse_replicate]
  rcases List.eq_nil_or_concat names with rfl | ⟨names, last, rfl⟩
  · rw [List.reverse_nil, List.nil_append] at stackEq
    rw [stackEq, enter_up_climbs rooted root]
    cases rooted with
    | true =>
        rw [root rfl]
        exact Or.inr (Or.inl ⟨rfl, rfl, rfl⟩)
    | false =>
        refine Or.inr (Or.inr ⟨⟨climbs + 1, [], ?_, by simp, by simp⟩, List.replicate_succ⟩)
        rw [← List.replicate_succ, List.reverse_replicate, List.append_nil]
  · have lastName : last.IsName := isName last (by simp)
    rw [List.concat_eq_append, List.reverse_append, List.reverse_singleton,
      List.singleton_append, List.cons_append] at stackEq
    have below : Reduced rooted (names.reverse ++ List.replicate climbs up).reverse :=
      ⟨climbs, names, by simp, fun t ht => isName t (by simp [ht]), root⟩
    rw [stackEq]
    exact Or.inl ⟨last, _, rfl, lastName, below, enter_up_name rooted _ lastName⟩

/-- One step of a walk keeps the segments walked so far reduced. -/
theorem reduced_enter {rooted : Bool} {stack : List Segment}
    (h : Reduced rooted stack.reverse) {s : Segment} (clean : s.IsClean) :
    Reduced rooted (enter rooted stack s).reverse := by
  by_cases blank : s = [] ∨ s = here
  · rw [enter_blank rooted stack blank]
    exact h
  by_cases isUp : s = up
  · rw [isUp]
    rcases enter_up_cases h with ⟨_, below, -, -, reduced, eq⟩ | ⟨-, -, eq⟩ | ⟨reduced, eq⟩
    · rw [eq]
      exact reduced
    · rw [eq]
      exact reduced_nil rooted
    · rw [eq]
      exact reduced
  · have name : s.IsName := by
      rw [not_or] at blank
      exact ⟨blank.1, blank.2, isUp, clean⟩
    rw [enter_name rooted stack name, List.reverse_cons]
    exact h.concat name

theorem reduced_walk (rooted : Bool) {segments : List Segment}
    (clean : ∀ s ∈ segments, s.IsClean) : Reduced rooted (walk rooted segments).reverse := by
  unfold walk
  induction segments using List.reverseRecOn with
  | nil => exact reduced_nil rooted
  | append_singleton segments s ih =>
      rw [List.foldl_append]
      exact reduced_enter (ih fun t ht => clean t (by simp [ht])) (clean s (by simp))

theorem foldl_enter_names (rooted : Bool) (stack : List Segment) {names : List Segment}
    (h : ∀ s ∈ names, s.IsName) :
    names.foldl (enter rooted) stack = names.reverse ++ stack := by
  induction names generalizing stack with
  | nil => rfl
  | cons s rest ih =>
      rw [List.foldl_cons, enter_name rooted stack (h s (by simp)),
        ih _ fun t ht => h t (by simp [ht])]
      simp

theorem walk_climbs (climbs : Nat) :
    walk false (List.replicate climbs up) = List.replicate climbs up := by
  unfold walk
  induction climbs with
  | zero => rfl
  | succ n ih =>
      rw [List.replicate_succ', List.foldl_append, ih, List.foldl_cons, List.foldl_nil,
        enter_up_climbs false (by simp)]
      exact List.replicate_succ'

/-- A walk takes nothing out of reduced segments. -/
theorem walk_of_reduced {rooted : Bool} {segments : List Segment}
    (h : Reduced rooted segments) : (walk rooted segments).reverse = segments := by
  obtain ⟨climbs, names, rfl, isName, root⟩ := h
  have climbed : walk rooted (List.replicate climbs up) = List.replicate climbs up := by
    cases rooted with
    | true =>
        rw [root rfl]
        rfl
    | false => exact walk_climbs climbs
  unfold walk at climbed ⊢
  rw [List.foldl_append, climbed, foldl_enter_names rooted _ isName]
  simp

/-- An empty segment in front is nothing to walk through. -/
theorem walk_nil_cons (rooted : Bool) (segments : List Segment) :
    walk rooted ([] :: segments) = walk rooted segments := by
  rw [walk, List.foldl_cons, enter_blank rooted [] (Or.inl rfl)]
  rfl

end PathParts

end DiagnosticFeed
