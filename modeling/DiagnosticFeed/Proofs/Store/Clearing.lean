import DiagnosticFeed.Proofs.Store.History
import DiagnosticFeed.Proofs.Store.Stocked

/-!
# What clearing takes away

Whether a batch is cleared depends on the batch and its key alone, so clearing
takes away exactly what is asked for, and it makes no difference in what order
things are asked for: to clear by project and trigger at once is the same as to
clear by one after the other. The number of batches that are cleared is the
number that the store is smaller by.
-/

namespace DiagnosticFeed

namespace Selection

def byProject (s : Selection) : Selection := ⟨s.project, none⟩

def byTrigger (s : Selection) : Selection := ⟨none, s.trigger⟩

theorem selects_eq_or (s : Selection) (key : FileKey) (batch : Batch) :
    s.selects key batch = (s.byProject.selects key batch || s.byTrigger.selects key batch) := by
  simp [selects, byProject, byTrigger, matchesProject, matchesTrigger]

end Selection

namespace Store

variable {s : Store}

/-! ## What is left -/

/-- Two selections that are cleared one after the other take away what a
selection does that asks for all that they ask for. -/
theorem Stocked.clear_clear (h : s.Stocked) {first second both : Selection}
    (selects : ∀ key batch,
      both.selects key batch = (first.selects key batch || second.selects key batch)) :
    (s.clear first).clear second = s.clear both := by
  refine Stocked.ext ((h.clear first).clear second) (h.clear both) fun tag key => ?_
  simp only [batchAt?_clear, Option.filter_filter, selects, Bool.not_or]

/-! ## How much is left -/

theorem size_keep_le (selection : Selection) (files : FileMap) :
    (keep selection files).size ≤ files.size := List.length_filter_le _ _

/-- The size of a store after clearing, without regard to tags that go away. -/
theorem fileCount_clear (s : Store) (selection : Selection) :
    (s.clear selection).fileCount = s.byTag.total fun files => (keep selection files).size := by
  by_cases empty : selection.isEmpty = true
  · have all : ∀ files : FileMap, keep selection files = files := by
      intro files
      refine SortedMap.ext (List.filter_eq_self.2 fun e _ => ?_)
      simp only [Selection.selects_of_isEmpty empty, Bool.not_false]
    simp only [clear, if_pos empty, all]
    rfl
  · rw [clear, if_neg empty, fileCount, SortedMap.total_filterMap]
    refine congrArg _ (funext fun files => ?_)
    by_cases gone : (keep selection files).isEmpty = true
    · rw [if_pos gone, SortedMap.isEmpty_iff.1 gone]
      rfl
    · rw [if_neg gone]
      rfl

theorem fileCount_clear_add (s : Store) (selection : Selection) :
    (s.clear selection).fileCount + s.selectedCount selection = s.fileCount := by
  by_cases empty : selection.isEmpty = true
  · rw [clear, if_pos empty, selectedCount, if_pos empty, Nat.add_zero]
  · rw [fileCount_clear, selectedCount, if_neg empty, ← SortedMap.total_add, fileCount]
    refine congrArg _ (funext fun files => ?_)
    exact Nat.add_sub_of_le (size_keep_le selection files)

theorem selectedCount_add {first second both : Selection}
    (same : (s.clear first).clear second = s.clear both) :
    s.selectedCount first + (s.clear first).selectedCount second = s.selectedCount both := by
  have firstCount := fileCount_clear_add s first
  have secondCount := fileCount_clear_add (s.clear first) second
  have bothCount := fileCount_clear_add s both
  rw [same] at secondCount
  omega

theorem Stocked.clear_self (h : s.Stocked) (selection : Selection) :
    (s.clear selection).clear selection = s.clear selection :=
  h.clear_clear fun _ _ => (Bool.or_self _).symm

theorem Stocked.clear_byProject_byTrigger (h : s.Stocked) (selection : Selection) :
    (s.clear selection.byProject).clear selection.byTrigger = s.clear selection :=
  h.clear_clear selection.selects_eq_or

theorem Stocked.clear_byTrigger_byProject (h : s.Stocked) (selection : Selection) :
    (s.clear selection.byTrigger).clear selection.byProject = s.clear selection := by
  refine h.clear_clear fun key batch => ?_
  rw [selection.selects_eq_or, Bool.or_comm]

/-- Clearing leaves exactly the batches that are not asked for, as they were, and
counts the others. A second time it takes away nothing, and so it does if nothing
is asked for. A project and a trigger may be cleared at once or one after the
other in either order: the store is the same, and the counts add up. -/
theorem clear_exactly_asked (history : List Mutation) (selection : Selection) :
    let s := ofHistory history
    (∀ tag key batch, (s.clear selection).batchAt? tag key = some batch ↔
        s.batchAt? tag key = some batch ∧ ¬selection.Asks key batch) ∧
      (s.clear selection).fileCount + s.selectedCount selection = s.fileCount ∧
      ((s.clear selection).clear selection = s.clear selection ∧
        (s.clear selection).selectedCount selection = 0) ∧
      (s.clear ⟨none, none⟩ = s ∧ s.selectedCount ⟨none, none⟩ = 0) ∧
      ((s.clear selection.byProject).clear selection.byTrigger = s.clear selection ∧
        s.selectedCount selection.byProject +
            (s.clear selection.byProject).selectedCount selection.byTrigger =
          s.selectedCount selection) ∧
      (s.clear selection.byTrigger).clear selection.byProject = s.clear selection ∧
        s.selectedCount selection.byTrigger +
            (s.clear selection.byTrigger).selectedCount selection.byProject =
          s.selectedCount selection := by
  intro s
  have stocked : s.Stocked := stocked_ofHistory history
  have again := stocked.clear_self selection
  have projectFirst := stocked.clear_byProject_byTrigger selection
  have triggerFirst := stocked.clear_byTrigger_byProject selection
  refine ⟨fun tag key batch => ?_, fileCount_clear_add s selection, ⟨again, ?_⟩, ⟨rfl, rfl⟩,
    ⟨projectFirst, selectedCount_add projectFirst⟩, triggerFirst, selectedCount_add triggerFirst⟩
  · rw [batchAt?_clear, Option.filter_eq_some_iff, Bool.not_eq_true', ← Bool.not_eq_true,
      Selection.selects_iff]
  · have counts := selectedCount_add again
    omega

end Store

end DiagnosticFeed
