import DiagnosticFeed.Store.Mutation
import DiagnosticFeed.Proofs.FileKey.Climbs
import DiagnosticFeed.Proofs.Store.Entries

/-!
# Clearing a project and nothing outside of it

To clear a project takes away the batches about all files that lie below it. So
it reaches a file outside of the project where one is taken to lie below it:
where the project is the single dot or nothing but steps up, and the file climbs
further than that.
-/

namespace DiagnosticFeed

namespace Store

theorem batchAt?_clear_project_eq_none_iff {s : Store} {tag : Tag} {key : FileKey} {batch : Batch}
    (held : s.batchAt? tag key = some batch) (project : String) :
    (s.clear ⟨some project, none⟩).batchAt? tag key = none ↔
      key.isWithin (.ofPath project) = true := by
  rw [batchAt?_clear, held]
  simp [Option.filter, Selection.selects, Selection.matchesProject, Selection.matchesTrigger]

/-- Of the batches that clearing a project takes away, those are about files
outside of it whose keys have more steps up than the project. There are such
batches, in some store, exactly if the project is the single dot or nothing but
steps up. -/
theorem exists_cleared_outside_iff (project : String) :
    (∀ history tag key batch, (ofHistory history).batchAt? tag key = some batch →
      (((ofHistory history).clear ⟨some project, none⟩).batchAt? tag key = none ∧
          key.Escapes (.ofPath project) ↔
        key.isWithin (.ofPath project) = true ∧
          (FileKey.ofPath project).climbs < key.climbs)) ∧
      ((∃ history tag key batch, (ofHistory history).batchAt? tag key = some batch ∧
          ((ofHistory history).clear ⟨some project, none⟩).batchAt? tag key = none ∧
            key.Escapes (.ofPath project)) ↔
        (FileKey.ofPath project).text = "." ∨ (FileKey.ofPath project).OnlyClimbs) := by
  constructor
  · intro history tag key batch held
    rw [batchAt?_clear_project_eq_none_iff held, FileKey.escapes_iff]
    tauto
  · rw [← FileKey.exists_escapes_iff]
    constructor
    · rintro ⟨_, _, key, _, _, _, escapes⟩
      exact ⟨key, escapes⟩
    · rintro ⟨key, escapes⟩
      obtain ⟨file, rfl⟩ := key.exists_ofPath
      have held := batchAt?_report_self .empty ⟨"t"⟩ file ⟨none, []⟩
      refine ⟨[.report ⟨"t"⟩ file ⟨none, []⟩], _, _, _, held, ?_, escapes⟩
      exact (batchAt?_clear_project_eq_none_iff held project).2 (FileKey.escapes_iff.1 escapes).1

/-- A file beside the place where paths start is taken to lie below it, and is
cleared with it. -/
theorem clear_dot_reaches_outside :
    (∃ rest, (FileKey.ofPath "../a.ts").below? (.ofPath ".") = some rest ∧
        Segment.up ∈ rest.splitOn '/') ∧
      (ofHistory [.report ⟨"t"⟩ "../a.ts" ⟨none, []⟩]).batch? ⟨"t"⟩ "../a.ts" = some ⟨none, []⟩ ∧
        ((ofHistory [.report ⟨"t"⟩ "../a.ts" ⟨none, []⟩]).clear ⟨some ".", none⟩).batch? ⟨"t"⟩
          "../a.ts" = none :=
  ⟨⟨"../a.ts".toList, by decide +kernel⟩, by decide +kernel, by decide +kernel⟩

end Store

end DiagnosticFeed
