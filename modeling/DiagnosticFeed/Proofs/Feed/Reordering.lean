import DiagnosticFeed.Feed
import DiagnosticFeed.Proofs.Store.Stocked
import Mathlib.Logic.Function.Iterate

/-!
# Reports in any order

A report has its say about one tag and one key, its subject. After reports of
which no two have the same subject, the store holds the batch of each of them,
and what it held before about all other subjects, so it does not matter in which
order they came. Nor does it matter to a feed, which schedules one publication
after the other whatever is reported (`run_eq_of_perm`).
-/

namespace DiagnosticFeed

structure Report where
  tag : Tag
  file : String
  batch : Batch

namespace Report

/-- What a report is about, however its file is spelt. -/
def subject (r : Report) : Tag × FileKey := (r.tag, .ofPath r.file)

def mutation (r : Report) : Mutation := .report r.tag r.file r.batch

end Report

namespace Store

variable {s : Store} {reports reports' : List Report}

def reportAll (s : Store) (reports : List Report) : Store :=
  (reports.map Report.mutation).foldl apply s

theorem reportAll_cons (s : Store) (r : Report) (rest : List Report) :
    s.reportAll (r :: rest) = (s.report r.tag r.file r.batch).reportAll rest := rfl

theorem Stocked.reportAll (h : s.Stocked) (reports : List Report) :
    (s.reportAll reports).Stocked := by
  induction reports generalizing s with
  | nil => exact h
  | cons r rest ih => exact ih (h.report r.tag r.file r.batch)

theorem batchAt?_reportAll_of_notMem (s : Store) {tag : Tag} {key : FileKey}
    (elsewhere : (tag, key) ∉ reports.map Report.subject) :
    (s.reportAll reports).batchAt? tag key = s.batchAt? tag key := by
  induction reports generalizing s with
  | nil => rfl
  | cons r rest ih =>
      rw [List.map_cons, List.mem_cons, not_or, Report.subject, Prod.mk.injEq,
        not_and_or] at elsewhere
      rw [reportAll_cons, ih _ elsewhere.2, batchAt?_report_of_ne s r.batch elsewhere.1]

theorem batchAt?_reportAll_of_mem (s : Store)
    (apart : (reports.map Report.subject).Nodup) {r : Report} (mem : r ∈ reports) :
    (s.reportAll reports).batchAt? r.tag (.ofPath r.file) = some r.batch := by
  induction reports generalizing s with
  | nil => cases mem
  | cons first rest ih =>
      rw [List.map_cons, List.nodup_cons] at apart
      rw [reportAll_cons]
      rcases List.mem_cons.1 mem with rfl | later
      · rw [batchAt?_reportAll_of_notMem _ apart.1, batchAt?_report_self]
      · exact ih _ apart.2 later

/-- Two orders of the same reports lead to the same store. -/
theorem Stocked.reportAll_perm (h : s.Stocked) (apart : (reports.map Report.subject).Nodup)
    (perm : reports.Perm reports') : s.reportAll reports = s.reportAll reports' := by
  have apart' : (reports'.map Report.subject).Nodup := (perm.map _).nodup_iff.1 apart
  refine Stocked.ext (h.reportAll reports) (h.reportAll reports') fun tag key => ?_
  by_cases reported : (tag, key) ∈ reports.map Report.subject
  · obtain ⟨r, mem, about⟩ := List.mem_map.1 reported
    obtain ⟨rfl, rfl⟩ := Prod.mk.inj about
    rw [batchAt?_reportAll_of_mem s apart mem, batchAt?_reportAll_of_mem s apart' (perm.subset mem)]
  · have reported' : (tag, key) ∉ reports'.map Report.subject :=
      fun mem => reported ((perm.map _).symm.subset mem)
    rw [batchAt?_reportAll_of_notMem s reported, batchAt?_reportAll_of_notMem s reported']

end Store

namespace Feed

variable {σ : Type}

/-- Reports to a feed tell the sinks nothing; each of them triggers the timer. -/
theorem run_reports (f : Feed σ) (reports : List Report) :
    f.run (reports.map fun r => .mutate r.mutation) =
      ({ f with
          store := f.store.reportAll reports
          timer := Timer.trigger^[reports.length] f.timer },
        []) := by
  induction reports generalizing f with
  | nil => rfl
  | cons r rest ih =>
      rw [List.map_cons, run_cons, ih]
      rfl

/-- Reports of which no two are about the same tag and file may be made in any
order. The store is the same, with the batch of each report and of what was there
before all that no report is about. So all that can be seen of the store is the
same: its issues, the answers to queries, and the messages under all settings. And
a feed is the same in all its parts, with nothing told to the sinks meanwhile. -/
theorem run_eq_of_perm (history : List Mutation) {reports reports' : List Report}
    (apart : (reports.map Report.subject).Nodup) (perm : reports.Perm reports') :
    let s := Store.ofHistory history
    (s.reportAll reports = s.reportAll reports' ∧
        (∀ r ∈ reports, (s.reportAll reports').batch? r.tag r.file = some r.batch) ∧
        ∀ tag file, (tag, FileKey.ofPath file) ∉ reports.map Report.subject →
          (s.reportAll reports').batch? tag file = s.batch? tag file) ∧
      ((s.reportAll reports).issues = (s.reportAll reports').issues ∧
        (∀ file p, (s.reportAll reports).issuesAt file p = (s.reportAll reports').issuesAt file p) ∧
        (∀ file asked,
          (s.reportAll reports).issuesIn file asked = (s.reportAll reports').issuesIn file asked) ∧
        (∀ trigger,
          (s.reportAll reports).triggeredBy trigger = (s.reportAll reports').triggeredBy trigger) ∧
        ∀ settings : Settings, settings.messages (s.reportAll reports).issues =
          settings.messages (s.reportAll reports').issues) ∧
        ∀ f : Feed σ, f.store = s →
          f.run (reports.map fun r => .mutate r.mutation) =
              f.run (reports'.map fun r => .mutate r.mutation) ∧
            (f.run (reports.map fun r => .mutate r.mutation)).2 = [] := by
  intro s
  have same : s.reportAll reports = s.reportAll reports' :=
    (Store.stocked_ofHistory history).reportAll_perm apart perm
  refine ⟨⟨same, ?_, ?_⟩, ?_, ?_⟩
  · intro r mem
    rw [← same]
    exact Store.batchAt?_reportAll_of_mem s apart mem
  · intro tag file elsewhere
    rw [← same]
    exact Store.batchAt?_reportAll_of_notMem s elsewhere
  · rw [same]
    simp
  · intro f here
    rw [run_reports, run_reports, here, same, perm.length_eq]
    exact ⟨rfl, rfl⟩

/-- Two tags and two files: one file under both tags, spelt in two ways. -/
def scattered : List Report :=
  [⟨.semantic, "a.ts", ⟨none, []⟩⟩, ⟨.syntactic, "./x/../a.ts", ⟨some "b.ts", []⟩⟩,
    ⟨.semantic, "b.ts", ⟨none, [⟨.error, .number 1, "x", none, none, false, none⟩]⟩⟩]

/-- What is stored when these reports come: a batch that is replaced, and one
that stays. -/
def beforehand : List Mutation :=
  [.report .semantic "a.ts" ⟨some "a.ts", []⟩, .report .suggestion "a.ts" ⟨none, []⟩]

theorem run_eq_of_perm_scattered :
    (scattered.map Report.subject).Nodup ∧ scattered.Perm scattered.reverse ∧
      (Store.ofHistory beforehand).reportAll scattered =
        (Store.ofHistory beforehand).reportAll scattered.reverse ∧
      ((Store.ofHistory beforehand).reportAll scattered.reverse).batch? .syntactic "./x/../a.ts" =
        some ⟨some "b.ts", []⟩ ∧
      ((Store.ofHistory beforehand).reportAll scattered.reverse).batch? .suggestion "a.ts" =
        some ⟨none, []⟩ := by
  have apart : (scattered.map Report.subject).Nodup := by decide +kernel
  have perm : scattered.Perm scattered.reverse := scattered.reverse_perm.symm
  obtain ⟨⟨same, reported, elsewhere⟩, -⟩ := run_eq_of_perm (σ := Nat) beforehand apart perm
  have apartFrom : (Tag.suggestion, FileKey.ofPath "a.ts") ∉ scattered.map Report.subject := by
    decide +kernel
  have inScattered : ⟨.syntactic, "./x/../a.ts", ⟨some "b.ts", []⟩⟩ ∈ scattered := by
    simp [scattered]
  refine ⟨apart, perm, same, reported _ inScattered, ?_⟩
  rw [elsewhere .suggestion "a.ts" apartFrom]
  decide +kernel

end Feed

end DiagnosticFeed
