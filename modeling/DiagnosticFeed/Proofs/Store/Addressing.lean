import DiagnosticFeed.Message
import DiagnosticFeed.Store.Mutation
import DiagnosticFeed.Proofs.FileKey.Drift
import DiagnosticFeed.Proofs.Store.Entries

/-!
# File names that are given out

The files that a store names are the texts of its keys. Each of them leads back
to its key, wherever the store takes a file name, exactly if the key does not
drift.
-/

namespace DiagnosticFeed

theorem Settings.file_of_mem_messages {settings : Settings} {issues : List (FileKey × Diagnostic)}
    {m : Message} (h : m ∈ settings.messages issues) :
    ∃ key d, (key, d) ∈ issues ∧ m.file = key.text := by
  unfold messages at h
  split at h
  · cases h
  · obtain ⟨⟨key, d⟩, mem, eq⟩ := List.mem_filterMap.1 h
    refine ⟨key, d, mem, ?_⟩
    dsimp only at eq
    split at eq
    · cases eq
    · rw [← Option.some_inj.1 eq]
      rfl

namespace Store

/-- The file names that are given out with a store: those of its issues, of the
files that a file has triggered, and of the messages for the issues. -/
inductive GivesOut (s : Store) : String → Prop where
  | issue {key : FileKey} {d : Diagnostic} (h : (key, d) ∈ s.issues) : GivesOut s key.text
  | triggered {key : FileKey} {trigger : String} (h : key ∈ s.triggeredBy trigger) :
      GivesOut s key.text
  | message {settings : Settings} {m : Message} (h : m ∈ settings.messages s.issues) :
      GivesOut s m.file

theorem GivesOut.exists_batchAt? {s : Store} {name : String} (h : s.GivesOut name) :
    ∃ key, key.text = name ∧ ∃ tag batch, s.batchAt? tag key = some batch := by
  have ofIssue : ∀ {key d}, (key, d) ∈ s.issues → ∃ tag batch, s.batchAt? tag key = some batch := by
    intro key d mem
    obtain ⟨tag, batch, found, -⟩ := mem_issues_iff.1 mem
    exact ⟨tag, batch, found⟩
  cases h with
  | issue mem => exact ⟨_, rfl, ofIssue mem⟩
  | triggered mem =>
      obtain ⟨tag, batch, found, -⟩ := mem_triggeredBy_iff.1 mem
      exact ⟨_, rfl, tag, batch, found⟩
  | message mem =>
      obtain ⟨key, d, issue, eq⟩ := Settings.file_of_mem_messages mem
      exact ⟨key, eq.symm, ofIssue issue⟩

/-- A file name that leads to a key wherever a store takes a file name: to look
up, report and query a file, and to clear by the file that has triggered. -/
structure Addresses (s : Store) (name : String) (key : FileKey) : Prop where
  entry : ∀ tag, s.batch? tag name = s.batchAt? tag key
  report_self : ∀ tag batch, (s.report tag name batch).batchAt? tag key = some batch
  report_other : ∀ tag batch tag' key', tag' ≠ tag ∨ key' ≠ key →
    (s.report tag name batch).batchAt? tag' key' = s.batchAt? tag' key'
  issuesAt : ∀ p d, d ∈ s.issuesAt name p ↔ (key, d) ∈ s.issues ∧ d.span.holds p = true
  issuesIn : ∀ asked d, d ∈ s.issuesIn name asked ↔ (key, d) ∈ s.issues ∧ d.span.meets asked = true
  clear : ∀ tag key', (s.clear ⟨none, some name⟩).batchAt? tag key' =
    (s.batchAt? tag key').filter fun batch => key' ≠ key && batch.trigger ≠ some name

theorem addresses_ofPath (s : Store) (name : String) : s.Addresses name (.ofPath name) where
  entry _ := rfl
  report_self tag batch := batchAt?_report_self s tag name batch
  report_other _ batch _ _ other := batchAt?_report_of_ne s batch other
  issuesAt _ _ := mem_issuesWhere_iff
  issuesIn _ _ := mem_issuesWhere_iff
  clear tag key' := by
    have selects : ∀ batch, (!(⟨none, some name⟩ : Selection).selects key' batch) =
        (key' ≠ .ofPath name && batch.trigger ≠ some name) := by
      intro batch
      simp [Selection.selects, Selection.matchesProject, Selection.matchesTrigger,
        Bool.and_comm]
    simp only [batchAt?_clear, selects]

/-- What a name is read as is the only key that it leads to. -/
theorem addresses_iff {s : Store} {name : String} {key : FileKey} :
    s.Addresses name key ↔ FileKey.ofPath name = key := by
  constructor
  · intro h
    by_contra ne
    have unchanged : ∀ batch, s.batchAt? .syntactic key = some batch := by
      intro batch
      rw [← h.report_self .syntactic batch, batchAt?_report_of_ne s batch (Or.inr (Ne.symm ne))]
    have same := (unchanged ⟨none, []⟩).symm.trans (unchanged ⟨some name, []⟩)
    cases same
  · rintro rfl
    exact addresses_ofPath s name

/-- A path string is normal once and for all exactly if its key does not drift,
and a file name that is given out leads back to the key that it is the text of
exactly if that key does not drift. -/
theorem addresses_givenOut_iff (path : String) (s : Store) :
    (FileKey.ofPath (FileKey.ofPath path).text = FileKey.ofPath path ↔
      (FileKey.ofPath path).drifts = false) ∧
      ∀ name, s.GivesOut name →
        ∃ key, key.text = name ∧ (∃ tag batch, s.batchAt? tag key = some batch) ∧
          (s.Addresses name key ↔ key.drifts = false) := by
  refine ⟨FileKey.ofPath_text_iff _, fun name given => ?_⟩
  obtain ⟨key, rfl, stored⟩ := given.exists_batchAt?
  exact ⟨key, rfl, stored, addresses_iff.trans key.ofPath_text_iff⟩

def single (file : String) : Store :=
  ofHistory [.report ⟨"t"⟩ file ⟨none, [⟨.error, .number 1, "x", none, none, false, none⟩]⟩]

theorem single_givesOut (file : String) : (single file).GivesOut (FileKey.ofPath file).text :=
  .issue (mem_issues_iff.2 ⟨⟨"t"⟩, _, batchAt?_report_self .empty _ _ _, List.mem_cons_self⟩)

theorem addresses_givenOut_relative :
    FileKey.ofPath (FileKey.ofPath "a\\x/../b.ts").text = FileKey.ofPath "a/b.ts" ∧
      (single "a/./b.ts").GivesOut "a/b.ts" ∧
        ∃ key, key.text = "a/b.ts" ∧ (single "a/./b.ts").Addresses "a/b.ts" key := by
  have read : FileKey.ofPath "a\\x/../b.ts" = FileKey.ofPath "a/b.ts" := by decide +kernel
  have stays : (FileKey.ofPath "a/b.ts").drifts = false := by decide +kernel
  have given : (single "a/./b.ts").GivesOut "a/b.ts" := single_givesOut "a/./b.ts"
  obtain ⟨again, reached⟩ := addresses_givenOut_iff "a\\x/../b.ts" (single "a/./b.ts")
  obtain ⟨key, text, -, addresses⟩ := reached "a/b.ts" given
  have keyEq : key = FileKey.ofPath "a/b.ts" := by
    refine FileKey.ext ?_
    rw [text]
    decide +kernel
  refine ⟨?_, given, key, text, addresses.2 ?_⟩
  · rw [read] at again ⊢
    exact again.2 stays
  · rw [keyEq]
    exact stays

/-- A name that starts like a drive is given out without the dot that was in
front of it. It is read as a drive, and the issue is not found again. -/
theorem not_addresses_drive :
    FileKey.ofPath (FileKey.ofPath "./c:/x").text ≠ FileKey.ofPath "./c:/x" ∧
      (single "./c:/x").GivesOut "c:/x" ∧
        (∀ key, key.text = "c:/x" → ¬(single "./c:/x").Addresses "c:/x" key) ∧
          (single "./c:/x").batch? ⟨"t"⟩ "c:/x" = none := by
  have moved : (FileKey.ofPath "c:/x").text ≠ "c:/x" := by decide +kernel
  refine ⟨by decide +kernel, single_givesOut "./c:/x", ?_, by decide +kernel⟩
  intro key text addresses
  refine moved ?_
  rw [addresses_iff.1 addresses, text]

end Store

end DiagnosticFeed
