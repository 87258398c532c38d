import DiagnosticFeed.Store.Mutation
import DiagnosticFeed.Proofs.Store.Entries
import Mathlib.Data.List.Induction

/-!
# Stores without bare tags

A store remembers a tag only as long as it has batches, and this holds after
every history. So a store is determined by its batches: two stores with the same
batch for each tag and key are one and the same (`Stocked.ext`).
-/

namespace DiagnosticFeed

namespace Store

/-- Every tag has batches. -/
def Stocked (s : Store) : Prop := ∀ e ∈ s.byTag.entries, e.2 ≠ SortedMap.empty

variable {s t : Store}

theorem Stocked.exists_batchAt? (h : s.Stocked) {tag : Tag} {files : FileMap}
    (found : s.byTag.get? tag = some files) : ∃ key batch, s.batchAt? tag key = some batch := by
  have stocked : files ≠ SortedMap.empty := h (tag, files) (SortedMap.get?_eq_some_iff.1 found)
  have some' : files.entries ≠ [] := fun nil => stocked (SortedMap.ext nil)
  obtain ⟨⟨key, batch⟩, mem⟩ := List.exists_mem_of_ne_nil _ some'
  refine ⟨key, batch, ?_⟩
  rw [batchAt?, found]
  exact SortedMap.get?_eq_some_iff.2 mem

/-- A store without bare tags is determined by its batches. -/
theorem Stocked.ext (hs : s.Stocked) (ht : t.Stocked)
    (same : ∀ tag key, s.batchAt? tag key = t.batchAt? tag key) : s = t := by
  have byTag : s.byTag = t.byTag := by
    refine SortedMap.ext_get? fun tag => ?_
    cases inS : s.byTag.get? tag with
    | none =>
        cases inT : t.byTag.get? tag with
        | none => rfl
        | some files =>
            obtain ⟨key, batch, found⟩ := ht.exists_batchAt? inT
            rw [← same, batchAt?, inS] at found
            cases found
    | some files =>
        cases inT : t.byTag.get? tag with
        | none =>
            obtain ⟨key, batch, found⟩ := hs.exists_batchAt? inS
            rw [same, batchAt?, inT] at found
            cases found
        | some files' =>
            have files_eq : files = files' := by
              refine SortedMap.ext_get? fun key => ?_
              simpa [batchAt?, inS, inT] using same tag key
            rw [files_eq]
  cases s
  cases t
  rw [Store.mk.injEq]
  exact byTag

theorem stocked_empty : empty.Stocked := by
  intro e mem
  cases mem

theorem Stocked.report (h : s.Stocked) (tag : Tag) (file : String) (batch : Batch) :
    (s.report tag file batch).Stocked := by
  intro e mem
  rcases SortedMap.mem_place mem with rfl | mem
  · intro bare
    have found := SortedMap.get?_insert_self ((s.byTag.get? tag).getD .empty) (.ofPath file) batch
    rw [show SortedMap.insert _ _ _ = SortedMap.empty from bare] at found
    cases found
  · exact h e mem

theorem Stocked.clear (h : s.Stocked) (selection : Selection) : (s.clear selection).Stocked := by
  rw [Store.clear]
  split
  · exact h
  · intro e mem
    obtain ⟨e', -, eq⟩ := List.mem_filterMap.1 mem
    obtain ⟨files, left, rfl⟩ := Option.map_eq_some_iff.1 eq
    dsimp only at left
    split at left
    · cases left
    · rename_i notEmpty
      obtain rfl := Option.some_inj.1 left
      exact fun bare => notEmpty (SortedMap.isEmpty_iff.2 bare)

theorem Stocked.apply (h : s.Stocked) (m : Mutation) : (s.apply m).Stocked := by
  cases m with
  | report tag file batch => exact h.report tag file batch
  | clear selection => exact h.clear selection

theorem stocked_ofHistory (history : List Mutation) : (ofHistory history).Stocked := by
  induction history using List.reverseRecOn with
  | nil => exact stocked_empty
  | append_singleton history m ih =>
      rw [ofHistory_append]
      exact ih.apply m

end Store

end DiagnosticFeed
