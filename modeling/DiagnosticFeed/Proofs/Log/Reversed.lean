import DiagnosticFeed.Log.Transcript
import DiagnosticFeed.Proofs.Log.Reports
import DiagnosticFeed.Proofs.Position.Points
import DiagnosticFeed.Proofs.Store.Widening

/-!
# Queries with their ends the wrong way round

A span that is made from two points starts at the earlier one, but the span of a
query is taken from its line as it stands there, and may have its ends the wrong way
round. Such a span is overlapped by what has both of its ends strictly inside
(`Span.meets_reversed`), and so it is answered with less than the same span the right
way round: issues that end or start between its ends are missed.
-/

namespace DiagnosticFeed

namespace Span

variable {a b : Point}

/-- Whether two points are strictly inside the span. -/
def surrounds (s : Span) (a b : Point) : Bool := s.meets (.emptyAt a) && s.meets (.emptyAt b)

theorem surrounds_iff_rank {s : Span} : s.surrounds a b = true ↔
    (s.start.rank < a.rank ∧ a.rank < s.stop.rank) ∧
      s.start.rank < b.rank ∧ b.rank < s.stop.rank := by
  simp only [surrounds, Bool.and_eq_true, meets_emptyAt_iff, Point.lt_iff_rank]

theorem start_le_stop_between (a b : Point) : (between a b).start ≤ (between a b).stop := by
  rw [Point.le_iff_rank, rank_start_between, rank_stop_between]
  omega

theorem between_of_le (ordered : a ≤ b) : between a b = ⟨a, b⟩ := if_pos ordered

theorem meets_reversed (ordered : a ≤ b) (s : Span) : s.meets ⟨b, a⟩ = s.surrounds a b := by
  rw [Point.le_iff_rank] at ordered
  rw [Bool.eq_iff_iff, meets_iff_rank, surrounds_iff_rank]
  dsimp only
  omega

/-- Which way round it is does not matter to what is not overlapped in either way, or
in both. -/
theorem meets_eq_meets_reversed_iff (s : Span) (a b : Point) :
    s.meets ⟨a, b⟩ = s.meets ⟨b, a⟩ ↔ (s.meets (between a b) = true → s.surrounds a b = true) := by
  rw [Bool.eq_iff_iff, meets_iff_rank, meets_iff_rank, meets_iff_rank, surrounds_iff_rank,
    rank_start_between, rank_stop_between]
  dsimp only
  omega

end Span

/-! ## Points and spans read back -/

theorem Point.ofJson?_toJson (p : Point) : Point.ofJson? p.toJson = some p := by
  obtain ⟨r, read, row, column⟩ :=
    Json.exists_record?_counts "row" "column" (by decide) p.row p.column
  simp only [ofJson?, toJson, read, row, column, Option.bind_eq_bind, Option.bind_some]
  rfl

theorem Point.fits_toJson (room : Nat) (p : Point) : p.toJson.fits (room + 1) = true :=
  Json.fits_counts "row" "column" p.row p.column

namespace Span

variable {s : Span} {ends : List (String × Json)}

theorem ofJson?_of_perm (perm : ends.Perm [("start", s.start.toJson), ("end", s.stop.toJson)]) :
    ofJson? (.record ends) = some s := by
  obtain ⟨r, read, start, stop⟩ := Json.exists_record?_eq_of_perm_pair (by decide) perm
  simp only [ofJson?, read, Json.Record.required_of_get? start, Json.Record.required_of_get? stop,
    Point.ofJson?_toJson, Option.bind_eq_bind, Option.bind_some]
  rfl

theorem fits_of_perm (perm : ends.Perm [("start", s.start.toJson), ("end", s.stop.toJson)])
    (room : Nat) : (Json.record ends).fits (room + 2) = true := by
  refine Json.fits_record fun m mem => ?_
  have field := perm.mem_iff.1 mem
  simp only [List.mem_cons, List.not_mem_nil, or_false] at field
  rcases field with rfl | rfl
  · exact s.start.fits_toJson room
  · exact s.stop.fits_toJson room

end Span

namespace Store

/-- Two queries have the same answer if they overlap the same of what is stored. -/
theorem issuesIn_eq_issuesIn_iff (s : Store) (file : String) (asked asked' : Span) :
    s.issuesIn file asked = s.issuesIn file asked' ↔
      ∀ d ∈ s.stored file, d.span.meets asked = d.span.meets asked' := by
  constructor
  · intro same d stored
    rw [Bool.eq_iff_iff, ← mem_issuesIn_iff_of_stored stored, same,
      mem_issuesIn_iff_of_stored stored]
  · intro same
    rw [issuesIn, issuesIn, issuesWhere_eq_filter, issuesWhere_eq_filter]
    exact List.filter_congr same

end Store

namespace Log

namespace Event

variable {file : String} {point : Option Point} {s : Span} {ends : List (String × Json)}

def queryFields (file : String) (point : Option Point) (ends : List (String × Json)) :
    List (String × Json) :=
  ("file", .string file) :: ("range", .record ends) :: Json.knownMember "at" Point.toJson point

theorem readQuery_of_lookup
    (perm : ends.Perm [("start", s.start.toJson), ("end", s.stop.toJson)])
    {r : Json.Record} (named : r.listed = false)
    (fields : ∀ name ∈ ["file", "at", "range"],
      r.get? name = (queryFields file point ends).lookup name) :
    readQuery r = some (.query file point (some s)) := by
  have fileGiven : r.get? "file" = some (.string file) := fields _ (by decide)
  have rangeGiven : r.get? "range" = some (.record ends) := fields _ (by decide)
  have atGiven : r.get? "at" =
      if point.isSome then some (point.elim .null Point.toJson) else none := by
    rw [fields _ (by decide)]
    cases point <;> rfl
  have pointBack (p : Point) : Json.Record.nullable Point.ofJson? p.toJson = some (some p) :=
    Json.Record.nullable_record p.ofJson?_toJson
  have point' : r.optional "at" Point.ofJson? = some point :=
    Json.Record.optional_of_get? named atGiven (by simp) pointBack
  have span : r.optional "range" Span.ofJson? = some (some s) := by
    rw [Json.Record.optional, rangeGiven]
    exact Json.Record.nullable_record (Span.ofJson?_of_perm perm)
  simp only [readQuery, Json.Record.required_of_get? fileGiven, Json.string, Json.toText?, point',
    span, Option.bind_eq_bind, Option.bind_some]
  rfl

/-- The span of a query has its ends as they are given. -/
theorem ofJson?_query
    (perm : ends.Perm [("start", s.start.toJson), ("end", s.stop.toJson)])
    {given : List (String × Json)}
    (perm' : given.Perm (("type", .string "query") :: queryFields file point ends)) :
    ofJson? (.record given) = some (.query file point (some s)) := by
  have names : (queryFields file point ends).map (·.1) =
      ["file", "range"] ++ (point.map fun _ => "at").toList := by
    cases point <;> rfl
  have untyped : ∀ m ∈ queryFields file point ends, m.1 ≠ "type" := by
    intro m mem typed
    have listed := List.mem_map_of_mem (f := (·.1)) mem
    rw [names, typed] at listed
    cases point <;> simp at listed
  have nodup : ((queryFields file point ends).map (·.1)).Nodup := by
    rw [names]
    cases point <;> simp
  have fit : ∀ m ∈ queryFields file point ends, m.2.fits 126 = true := by
    intro m mem
    rcases List.mem_cons.1 mem with rfl | mem
    · rfl
    · rcases List.mem_cons.1 mem with rfl | mem
      · exact Span.fits_of_perm perm 124
      · exact Json.fits_knownMember (Point.fits_toJson 125) _ _ m mem
  obtain ⟨r, named, fields, read⟩ :=
    exists_ofJson?_eq_ofRecord? "query" rfl untyped nodup fit perm'
  rw [read]
  exact readQuery_of_lookup perm named fields

end Event

/-- Spans that are made from two points, such as the spans of issues, are the right
way round, but the span of a query is as its line has it. -/
structure QueriedAsWritten (file : String) (point : Option Point) (a b : Point) : Prop where
  start_le_stop_between : (Span.between a b).start ≤ (Span.between a b).stop
  start_le_stop_span : ∀ d : Diagnostic, d.span.start ≤ d.span.stop
  read_eq : ∀ ends given : List (String × Json),
    ends.Perm [("start", a.toJson), ("end", b.toJson)] →
      given.Perm (("type", .string "query") :: Event.queryFields file point ends) →
        Line.read (Json.record given).compact = .event (.query file point (some ⟨a, b⟩))

/-- The answers to a query for a span both ways round. -/
structure FoundBothWays (p : Player) (file : String) (point : Option Point) (a b : Point)
    (straight reversed : List Diagnostic) : Prop where
  found : (p.play (.query file point (some ⟨a, b⟩))).entries.getLast? =
    some (.found file straight)
  found_reversed : (p.play (.query file point (some ⟨b, a⟩))).entries.getLast? =
    some (.found file reversed)
  straight_eq : point = none → a ≤ b → straight = p.feed.store.issuesIn file (.between a b)
  reversed_eq : point = none → a ≤ b →
    reversed = (p.feed.store.stored file).filter (·.span.surrounds a b)
  eq_iff : straight = reversed ↔ point.isSome = true ∨ ∀ d ∈ p.feed.store.stored file,
    d.span.meets (.between a b) = true → d.span.surrounds a b = true

theorem queriedAsWritten (file : String) (point : Option Point) (a b : Point) :
    QueriedAsWritten file point a b where
  start_le_stop_between := Span.start_le_stop_between a b
  start_le_stop_span _ := Span.start_le_stop_between _ _
  read_eq _ _ perm perm' :=
    Line.read_compact_object (Event.ofJson?_query (s := ⟨a, b⟩) perm perm')

/-- The span of a query is as its line has it. The wrong way round it is answered
with the issues that have both of its ends strictly inside, and this is the answer
to the query the right way round exactly if nothing else that is stored for the file
overlaps it. A query that is for a point besides is not for the span. -/
theorem found_reversed_iff (p : Player) (file : String) (point : Option Point) (a b : Point) :
    QueriedAsWritten file point a b ∧
      ∃ straight reversed, FoundBothWays p file point a b straight reversed := by
  refine ⟨queriedAsWritten file point a b, _, _, List.getLast?_concat, List.getLast?_concat,
    ?_, ?_, ?_⟩
  · rintro rfl ordered
    rw [Span.between_of_le ordered]
    rfl
  · rintro rfl ordered
    simp only [Player.find, Store.issuesIn, Store.issuesWhere_eq_filter,
      Span.meets_reversed ordered]
  · cases point with
    | some q => exact iff_of_true rfl (Or.inl rfl)
    | none =>
        simp only [Player.find, Store.issuesIn_eq_issuesIn_iff, Span.meets_eq_meets_reversed_iff,
          Option.isSome_none, Bool.false_eq_true, false_or]

/-- An issue that is a word on the second line of its file. -/
def misspelt : Diagnostic := ⟨.error, .number 1005, "x", some ⟨2, 1⟩, some ⟨2, 5⟩, false, none⟩

def toldMisspelt : Player :=
  (Player.start .standard 100).play (.report ⟨"t"⟩ "a.ts" ⟨none, [misspelt]⟩)

/-- Inside the word it does not matter which way round a query is. -/
theorem found_reversed_iff_inside :
    ([("end", (⟨1, 3⟩ : Point).toJson), ("start", (⟨1, 1⟩ : Point).toJson)].Perm
        [("start", (⟨1, 1⟩ : Point).toJson), ("end", (⟨1, 3⟩ : Point).toJson)] ∧
      (⟨1, 1⟩ : Point) ≤ ⟨1, 3⟩) ∧
      Line.read (Json.record (("type", .string "query") :: Event.queryFields "a.ts" none
          [("end", (⟨1, 3⟩ : Point).toJson), ("start", (⟨1, 1⟩ : Point).toJson)])).compact =
        .event (.query "a.ts" none (some ⟨⟨1, 1⟩, ⟨1, 3⟩⟩)) ∧
      (toldMisspelt.feed.store.stored "a.ts").filter (·.span.surrounds ⟨1, 1⟩ ⟨1, 3⟩) = [misspelt] ∧
      ∃ answer, (toldMisspelt.play (.query "a.ts" none (some ⟨⟨1, 1⟩, ⟨1, 3⟩⟩))).entries.getLast? =
          some (.found "a.ts" answer) ∧
        (toldMisspelt.play (.query "a.ts" none (some ⟨⟨1, 3⟩, ⟨1, 1⟩⟩))).entries.getLast? =
          some (.found "a.ts" answer) ∧
        answer =
          (toldMisspelt.feed.store.stored "a.ts").filter (·.span.surrounds ⟨1, 1⟩ ⟨1, 3⟩) := by
  have perm := List.Perm.swap ("start", (⟨1, 1⟩ : Point).toJson) ("end", (⟨1, 3⟩ : Point).toJson) []
  have ordered : (⟨1, 1⟩ : Point) ≤ ⟨1, 3⟩ := by decide
  obtain ⟨written, straight, reversed, both⟩ :=
    found_reversed_iff toldMisspelt "a.ts" none ⟨1, 1⟩ ⟨1, 3⟩
  have equal : straight = reversed := both.eq_iff.2 (Or.inr (by decide +kernel))
  refine ⟨⟨perm, ordered⟩, written.read_eq _ _ perm (.refl _), ?_, ?_⟩
  · decide +kernel
  · exact ⟨reversed, equal ▸ both.found, both.found_reversed, both.reversed_eq rfl ordered⟩

/-- The word is found between the start of its file and the start of the fourth line,
but not between the start of the fourth line and the start of its file. -/
theorem misspelt_not_found_reversed :
    (toldMisspelt.play (.query "a.ts" none (some ⟨⟨0, 0⟩, ⟨3, 0⟩⟩))).entries.getLast? =
        some (.found "a.ts" [misspelt]) ∧
      (toldMisspelt.play (.query "a.ts" none (some ⟨⟨3, 0⟩, ⟨0, 0⟩⟩))).entries.getLast? =
        some (.found "a.ts" []) := by
  decide +kernel

end Log

end DiagnosticFeed
