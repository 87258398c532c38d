import DiagnosticFeed.Store.Mutation
import DiagnosticFeed.Proofs.Store.Entries
import Mathlib.Data.List.Induction

/-!
# The store as the last word of its history

What a store holds for a tag and a key can be read off its history: the batch of
the last report under the tag about the key (`LastReport`), unless it was asked
for by a selection that was cleared after that report. Whether a selection asks
for a batch depends on the trigger of this batch alone, so reports that were
replaced before have no say in it.
-/

namespace DiagnosticFeed

namespace Selection

/-- A selection asks for a batch about a file of its project, and for one that
its trigger has triggered or that is about the trigger itself. -/
def Asks (s : Selection) (key : FileKey) (batch : Batch) : Prop :=
  (∃ project, s.project = some project ∧ key.isWithin (.ofPath project) = true) ∨
    ∃ trigger, s.trigger = some trigger ∧
      (batch.trigger = some trigger ∨ key = .ofPath trigger)

theorem selects_iff {s : Selection} {key : FileKey} {batch : Batch} :
    s.selects key batch = true ↔ s.Asks key batch := by
  obtain ⟨project, trigger⟩ := s
  cases project <;> cases trigger <;>
    simp [selects, matchesProject, matchesTrigger, Asks]

end Selection

namespace Store

theorem batchAt?_clear_eq_some_iff {s : Store} {selection : Selection} {tag : Tag} {key : FileKey}
    {batch : Batch} :
    (s.clear selection).batchAt? tag key = some batch ↔
      s.batchAt? tag key = some batch ∧ ¬selection.Asks key batch := by
  rw [batchAt?_clear, Option.filter_eq_some_iff, Bool.not_eq_true', ← Bool.not_eq_true,
    Selection.selects_iff]

/-- The last report under a tag about a key is of a batch, and it has `later`
behind it. -/
def LastReport (history : List Mutation) (tag : Tag) (key : FileKey) (batch : Batch)
    (later : List Mutation) : Prop :=
  (∃ earlier file, history = earlier ++ .report tag file batch :: later ∧ .ofPath file = key) ∧
    ∀ file other, .report tag file other ∈ later → .ofPath file ≠ key

/-- A batch has been reported last and has not been asked for since. -/
def Stands (history : List Mutation) (tag : Tag) (key : FileKey) (batch : Batch) : Prop :=
  ∃ later, LastReport history tag key batch later ∧
    ∀ selection, .clear selection ∈ later → ¬selection.Asks key batch

section

variable {history later : List Mutation} {tag : Tag} {key : FileKey} {batch : Batch} {m : Mutation}

theorem not_stands_nil : ¬Stands [] tag key batch := by
  rintro ⟨later, ⟨⟨earlier, file, eq, -⟩, -⟩, -⟩
  simp at eq

/-- The last report is the last mutation, or that of the history before. -/
theorem LastReport.of_concat (h : LastReport (history ++ [m]) tag key batch later) :
    (later = [] ∧ ∃ file, m = .report tag file batch ∧ .ofPath file = key) ∨
      ∃ later', later = later' ++ [m] ∧ LastReport history tag key batch later' := by
  obtain ⟨⟨earlier, file, eq, same⟩, last⟩ := h
  rcases List.eq_nil_or_concat later with rfl | ⟨later', m', rfl⟩
  · obtain ⟨-, mEq⟩ := List.append_inj' eq rfl
    exact Or.inl ⟨rfl, file, List.singleton_inj.1 mEq, same⟩
  · rw [List.concat_eq_append, ← List.cons_append, ← List.append_assoc] at eq
    obtain ⟨rfl, mEq⟩ := List.append_inj' eq rfl
    obtain rfl := List.singleton_inj.1 mEq
    refine Or.inr ⟨later', List.concat_eq_append, ⟨earlier, file, rfl, same⟩, ?_⟩
    intro file' other mem
    exact last file' other (by simp [mem])

theorem LastReport.concat (h : LastReport history tag key batch later)
    (elsewhere : ∀ file other, m = .report tag file other → .ofPath file ≠ key) :
    LastReport (history ++ [m]) tag key batch (later ++ [m]) := by
  obtain ⟨⟨earlier, file, rfl, same⟩, last⟩ := h
  refine ⟨⟨earlier, file, by simp, same⟩, ?_⟩
  intro file' other mem
  rcases List.mem_append.1 mem with mem | mem
  · exact last file' other mem
  · exact elsewhere file' other (List.mem_singleton.1 mem).symm

theorem stands_concat_report_self (history : List Mutation) (tag : Tag) (file : String)
    (batch other : Batch) :
    Stands (history ++ [.report tag file other]) tag (.ofPath file) batch ↔ other = batch := by
  constructor
  · rintro ⟨later, last, -⟩
    rcases last.of_concat with ⟨-, file', eq, -⟩ | ⟨later', rfl, -⟩
    · exact (Mutation.report.inj eq).2.2
    · exact absurd rfl (last.2 file other (by simp))
  · rintro rfl
    exact ⟨[], ⟨⟨history, file, rfl, rfl⟩, by simp⟩, by simp⟩

theorem stands_concat_report_of_ne {tag' : Tag} {file : String} {other : Batch}
    (h : tag ≠ tag' ∨ key ≠ .ofPath file) :
    Stands (history ++ [.report tag' file other]) tag key batch ↔ Stands history tag key batch := by
  constructor
  · rintro ⟨later, last, kept⟩
    rcases last.of_concat with ⟨-, file', eq, same⟩ | ⟨later', rfl, before⟩
    · obtain ⟨rfl, rfl, -⟩ := Mutation.report.inj eq
      exact absurd same.symm (h.resolve_left fun ne => ne rfl)
    · exact ⟨later', before, fun selection mem => kept selection (by simp [mem])⟩
  · rintro ⟨later, last, kept⟩
    refine ⟨later ++ [.report tag' file other], last.concat ?_, ?_⟩
    · rintro file' other' eq same
      obtain ⟨rfl, rfl, -⟩ := Mutation.report.inj eq
      exact h.resolve_left (fun ne => ne rfl) same.symm
    · intro selection mem
      exact kept selection (by simpa using mem)

theorem stands_concat_clear {selection : Selection} :
    Stands (history ++ [.clear selection]) tag key batch ↔
      Stands history tag key batch ∧ ¬selection.Asks key batch := by
  constructor
  · rintro ⟨later, last, kept⟩
    rcases last.of_concat with ⟨-, file, eq, -⟩ | ⟨later', rfl, before⟩
    · cases eq
    · exact ⟨⟨later', before, fun s mem => kept s (by simp [mem])⟩, kept selection (by simp)⟩
  · rintro ⟨⟨later, last, kept⟩, notAsked⟩
    refine ⟨later ++ [.clear selection], last.concat (by rintro _ _ ⟨⟩), ?_⟩
    intro s mem
    rcases List.mem_append.1 mem with mem | mem
    · exact kept s mem
    · obtain rfl := Mutation.clear.inj (List.mem_singleton.1 mem)
      exact notAsked

end

/-- The store holds what stands in its history. -/
theorem batchAt?_ofHistory_iff {history : List Mutation} {tag : Tag} {key : FileKey}
    {batch : Batch} :
    (ofHistory history).batchAt? tag key = some batch ↔ Stands history tag key batch := by
  induction history using List.reverseRecOn generalizing batch with
  | nil => exact iff_of_false (by rintro ⟨⟩) not_stands_nil
  | append_singleton history m ih =>
      rw [ofHistory_append]
      cases m with
      | report tag' file other =>
          by_cases here : tag = tag' ∧ key = .ofPath file
          · obtain ⟨rfl, rfl⟩ := here
            rw [apply, batchAt?_report_self, Option.some_inj, stands_concat_report_self]
          · have elsewhere := not_and_or.1 here
            rw [apply, batchAt?_report_of_ne _ _ elsewhere, ih,
              stands_concat_report_of_ne elsewhere]
      | clear selection =>
          rw [apply, batchAt?_clear_eq_some_iff, ih, stands_concat_clear]

/-- A store holds exactly the batch that was reported last under a tag about a
file, however the file was spelt, unless it has been cleared since; it holds
none if there is no such batch; and reports under other tags or about other
files have no part in it. -/
theorem batch?_ofHistory (history : List Mutation) (tag : Tag) (file : String) :
    (∀ batch, (ofHistory history).batch? tag file = some batch ↔
        ∃ later, LastReport history tag (.ofPath file) batch later ∧
          ∀ selection, .clear selection ∈ later → ¬selection.Asks (.ofPath file) batch) ∧
      ((ofHistory history).batch? tag file = none ↔
        ∀ batch later, LastReport history tag (.ofPath file) batch later →
          ∃ selection, .clear selection ∈ later ∧ selection.Asks (.ofPath file) batch) ∧
        ∀ tag' file' other, tag ≠ tag' ∨ FileKey.ofPath file ≠ .ofPath file' →
          (ofHistory (history ++ [.report tag' file' other])).batch? tag file =
            (ofHistory history).batch? tag file := by
  have held : ∀ batch, (ofHistory history).batch? tag file = some batch ↔
      Stands history tag (.ofPath file) batch := fun batch => batchAt?_ofHistory_iff
  refine ⟨held, ?_, ?_⟩
  · rw [Option.eq_none_iff_forall_ne_some]
    simp only [Ne, held, Stands, not_exists, not_and, not_forall, not_not, exists_prop]
  · intro tag' file' other elsewhere
    rw [ofHistory_append]
    exact batchAt?_report_of_ne _ other elsewhere

end Store

end DiagnosticFeed
