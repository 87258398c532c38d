import DiagnosticFeed.Store.Query
import Mathlib.Tactic.Tauto

/-!
# The entries of a store

What is stored is a batch for each tag and key (`batchAt?`). Look-ups, changes
and queries are told in its terms: queries answer with what is in the batches,
in the order of the tags.
-/

namespace DiagnosticFeed

theorem Selection.selects_of_isEmpty {s : Selection} (h : s.isEmpty = true) (key : FileKey)
    (batch : Batch) : s.selects key batch = false := by
  obtain ⟨project, trigger⟩ := s
  obtain ⟨rfl, rfl⟩ : project = none ∧ trigger = none := by
    simpa [isEmpty] using h
  rfl

namespace Store

def batchAt? (s : Store) (tag : Tag) (key : FileKey) : Option Batch :=
  (s.byTag.get? tag).bind fun files => files.get? key

theorem batchAt?_eq_some_iff {s : Store} {tag : Tag} {key : FileKey} {batch : Batch} :
    s.batchAt? tag key = some batch ↔
      ∃ files, (tag, files) ∈ s.byTag.entries ∧ (key, batch) ∈ files.entries := by
  rw [batchAt?, Option.bind_eq_some_iff]
  simp only [SortedMap.get?_eq_some_iff]

/-! ## Changes -/

theorem batchAt?_report_self (s : Store) (tag : Tag) (file : String) (batch : Batch) :
    (s.report tag file batch).batchAt? tag (.ofPath file) = some batch :=
  batch?_report_self s tag batch rfl

theorem batchAt?_report_of_ne (s : Store) {tag tag' : Tag} {file : String} {key : FileKey}
    (batch : Batch) (h : tag' ≠ tag ∨ key ≠ .ofPath file) :
    (s.report tag file batch).batchAt? tag' key = s.batchAt? tag' key := by
  by_cases sameTag : tag' = tag
  · subst sameTag
    have ne : key ≠ .ofPath file := h.resolve_left fun ne => ne rfl
    cases found : s.byTag.get? tag' <;>
      simp [batchAt?, report, found, SortedMap.get?_insert_of_ne _ ne]
  · simp [batchAt?, report, SortedMap.get?_insert_of_ne _ sameTag]

/-- Of each tag and key, clearing leaves the batch that is not asked for. -/
theorem batchAt?_clear (s : Store) (selection : Selection) (tag : Tag) (key : FileKey) :
    (s.clear selection).batchAt? tag key =
      (s.batchAt? tag key).filter fun batch => !selection.selects key batch := by
  by_cases empty : selection.isEmpty = true
  · have all : (fun batch => !selection.selects key batch) = fun _ => true := by
      funext batch
      rw [Selection.selects_of_isEmpty empty, Bool.not_false]
    rw [clear, if_pos empty, all]
    cases s.batchAt? tag key <;> rfl
  · rw [clear, if_neg empty, batchAt?, SortedMap.get?_filterMap, batchAt?]
    cases s.byTag.get? tag with
    | none => rfl
    | some files =>
        have kept : (keep selection files).get? key =
            (files.get? key).filter fun batch => !selection.selects key batch :=
          SortedMap.get?_filter files _ key
        rw [Option.bind_some, Option.bind_some]
        by_cases gone : (keep selection files).isEmpty = true
        · rw [SortedMap.isEmpty_iff] at gone
          rw [gone] at kept
          rw [← kept, gone]
          rfl
        · rw [if_neg gone]
          exact kept

/-! ## Contents -/

theorem mem_issues_iff {s : Store} {key : FileKey} {d : Diagnostic} :
    (key, d) ∈ s.issues ↔ ∃ tag batch, s.batchAt? tag key = some batch ∧ d ∈ batch.diagnostics := by
  have inFiles : ∀ files : FileMap, (key, d) ∈ issuesOf files ↔
      ∃ batch, (key, batch) ∈ files.entries ∧ d ∈ batch.diagnostics := by
    intro files
    simp only [issuesOf, List.mem_flatMap, List.mem_map, Prod.mk.injEq]
    constructor
    · rintro ⟨⟨_, batch⟩, mem, _, inBatch, rfl, rfl⟩
      exact ⟨batch, mem, inBatch⟩
    · rintro ⟨batch, mem, inBatch⟩
      exact ⟨(key, batch), mem, d, inBatch, rfl, rfl⟩
  simp only [issues, List.mem_flatMap, SortedMap.mem_values_iff, inFiles, batchAt?_eq_some_iff]
  tauto

theorem mem_triggeredBy_iff {s : Store} {key : FileKey} {trigger : String} :
    key ∈ s.triggeredBy trigger ↔
      ∃ tag batch, s.batchAt? tag key = some batch ∧ batch.trigger = some trigger := by
  simp only [triggeredBy, mem_distinct, List.mem_flatMap, SortedMap.mem_values_iff, List.mem_map,
    List.mem_filter, batchAt?_eq_some_iff]
  constructor
  · rintro ⟨files, ⟨tag, inStore⟩, ⟨_, batch⟩, ⟨mem, eq⟩, rfl⟩
    exact ⟨tag, batch, ⟨files, inStore, mem⟩, by simpa using eq⟩
  · rintro ⟨tag, batch, ⟨files, inStore, mem⟩, eq⟩
    exact ⟨files, ⟨tag, inStore⟩, (key, batch), ⟨mem, by simpa using eq⟩, rfl⟩

/-- All issues about a file, by the tags in their order and under each tag in
the order of the producer. -/
def stored (s : Store) (file : String) : List Diagnostic :=
  s.tags.flatMap fun tag => ((s.batch? tag file).map (·.diagnostics)).getD []

theorem flatMap_batchesOf (s : Store) (file : String) :
    (s.batchesOf (.ofPath file)).flatMap (·.diagnostics) = s.stored file := by
  have byEntry : ∀ l ⊆ s.byTag.entries,
      ((l.map (·.2)).filterMap fun files => files.get? (.ofPath file)).flatMap (·.diagnostics) =
        (l.map (·.1)).flatMap fun tag => ((s.batch? tag file).map (·.diagnostics)).getD [] := by
    intro l
    induction l with
    | nil => exact fun _ => rfl
    | cons e rest ih =>
        intro h
        obtain ⟨he, hrest⟩ := List.cons_subset.1 h
        have found : s.byTag.get? e.1 = some e.2 := SortedMap.get?_eq_some_iff.2 he
        rw [List.map_cons, List.map_cons, List.flatMap_cons, ← ih hrest, batch?, found,
          Option.bind_some, List.filterMap_cons]
        cases e.2.get? (.ofPath file) <;> rfl
  exact byEntry s.byTag.entries (List.Subset.refl _)

theorem issuesWhere_eq_filter (s : Store) (file : String) (test : Span → Bool) :
    s.issuesWhere file test = (s.stored file).filter fun d => test d.span := by
  rw [issuesWhere, flatMap_batchesOf]

theorem mem_issuesWhere_iff {s : Store} {file : String} {test : Span → Bool} {d : Diagnostic} :
    d ∈ s.issuesWhere file test ↔ (.ofPath file, d) ∈ s.issues ∧ test d.span = true := by
  have batches : ∀ batch, batch ∈ s.batchesOf (.ofPath file) ↔
      ∃ tag, s.batchAt? tag (.ofPath file) = some batch := by
    intro batch
    simp only [batchesOf, List.mem_filterMap, SortedMap.mem_values_iff, batchAt?_eq_some_iff,
      SortedMap.get?_eq_some_iff]
    tauto
  simp only [issuesWhere, List.mem_filter, List.mem_flatMap, batches, mem_issues_iff]
  tauto

end Store

end DiagnosticFeed
