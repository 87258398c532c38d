import DiagnosticFeed.Proofs.Store.Clearing
import DiagnosticFeed.Proofs.Store.Listing
import Mathlib.Algebra.Order.BigOperators.Group.List
import Mathlib.Algebra.Order.Group.Nat

/-!
# Files by the trigger of their batches

A file that is held under several tags may have a batch of another trigger under
each of them. A trigger has the files with a batch of its own under some tag, each
listed once and where the first such tag puts it. Clearing goes by batches: when a
trigger is cleared, no file is left to it, and no fewer batches go than it had
files. Nothing is left about the trigger itself either, and this is all that other
triggers lose.
-/

namespace DiagnosticFeed

/-- What a trigger has triggered, and what is about the trigger itself. -/
def Selection.ofTrigger (trigger : String) : Selection := ⟨none, some trigger⟩

theorem Selection.asks_ofTrigger_iff {trigger : String} {key : FileKey} {batch : Batch} :
    (ofTrigger trigger).Asks key batch ↔
      batch.trigger = some trigger ∨ key = .ofPath trigger := by
  simp [Asks, ofTrigger]

namespace Store

def HasTrigger (s : Store) (trigger : String) (tag : Tag) (key : FileKey) : Prop :=
  ∃ batch, s.batchAt? tag key = some batch ∧ batch.trigger = some trigger

/-- The first tag that has a batch about a file with a trigger. -/
def FirstTrigger (s : Store) (trigger : String) (tag : Tag) (key : FileKey) : Prop :=
  s.HasTrigger trigger tag key ∧
    ∀ tag', s.HasTrigger trigger tag' key → tag' = tag ∨ Text.bytes tag.name < Text.bytes tag'.name

/-- Batches are ordered by the bytes of their tags, under one tag by the bytes of
their files. -/
def BatchBefore (a b : Tag × FileKey) : Prop :=
  Text.bytes a.1.name < Text.bytes b.1.name ∨
    a.1 = b.1 ∧ Text.bytes a.2.text < Text.bytes b.2.text

def triggerPlaces (s : Store) (trigger : String) : List (Tag × FileKey) :=
  s.byTag.entries.flatMap fun e =>
    (e.2.entries.filter fun b => b.2.trigger = some trigger).map fun b => (e.1, b.1)

variable {s : Store} {trigger other : String} {tag : Tag} {key : FileKey}

theorem mem_triggerPlaces_iff :
    (tag, key) ∈ s.triggerPlaces trigger ↔ s.HasTrigger trigger tag key := by
  simp only [triggerPlaces, HasTrigger, batchAt?_eq_some_iff, List.mem_flatMap, List.mem_map,
    List.mem_filter, decide_eq_true_iff, Prod.mk.injEq]
  constructor
  · rintro ⟨⟨_, files⟩, inStore, ⟨_, batch⟩, ⟨inFiles, has⟩, rfl, rfl⟩
    exact ⟨batch, ⟨files, inStore, inFiles⟩, has⟩
  · rintro ⟨batch, ⟨files, inStore, inFiles⟩, has⟩
    exact ⟨(tag, files), inStore, (key, batch), ⟨inFiles, has⟩, rfl, rfl⟩

theorem triggerPlaces_pairwise (s : Store) (trigger : String) :
    (s.triggerPlaces trigger).Pairwise BatchBefore := by
  refine List.pairwise_flatMap.2 ⟨fun e _ => ?_, ?_⟩
  · refine List.pairwise_map.2 ((e.2.sorted.filter _).imp fun less => ?_)
    exact Or.inr ⟨rfl, Text.bytes_lt_bytes_iff.2 less⟩
  · refine s.byTag.sorted.imp fun less p hp q hq => Or.inl ?_
    obtain ⟨_, -, rfl⟩ := List.mem_map.1 hp
    obtain ⟨_, -, rfl⟩ := List.mem_map.1 hq
    exact Text.bytes_lt_bytes_iff.2 less

theorem triggeredBy_eq (s : Store) (trigger : String) :
    s.triggeredBy trigger = distinct ((s.triggerPlaces trigger).map (·.2)) := by
  rw [triggeredBy, triggerPlaces, SortedMap.values, List.flatMap_map, List.map_flatMap]
  simp only [List.map_map]
  rfl

theorem firstTrigger_of_leads {p : Tag × FileKey}
    (leads : Leads BatchBefore (·.2) (s.triggerPlaces trigger) p key) :
    s.FirstTrigger trigger p.1 key := by
  obtain ⟨tag, key'⟩ := p
  obtain ⟨mem, rfl, first⟩ := leads
  refine ⟨mem_triggerPlaces_iff.1 mem, fun tag' has => ?_⟩
  rcases first _ (mem_triggerPlaces_iff.2 has) rfl with same | less | ⟨same, -⟩
  · exact Or.inl (Prod.mk.inj same).1
  · exact Or.inr less
  · exact Or.inl same.symm

/-- Files are listed by the first tag that has a batch of theirs with the trigger,
and then by their own text. -/
theorem triggeredBy_pairwise (s : Store) (trigger : String) :
    (s.triggeredBy trigger).Pairwise fun a b => ∃ tag tag',
      s.FirstTrigger trigger tag a ∧ s.FirstTrigger trigger tag' b ∧
        BatchBefore (tag, a) (tag', b) := by
  rw [triggeredBy_eq]
  refine (distinct_map_pairwise (triggerPlaces_pairwise s trigger)).imp ?_
  rintro _ _ ⟨p, q, hp, hq, less⟩
  refine ⟨p.1, q.1, firstTrigger_of_leads hp, firstTrigger_of_leads hq, ?_⟩
  obtain ⟨-, rfl, -⟩ := hp
  obtain ⟨-, rfl, -⟩ := hq
  exact less

/-! ## Clearing a trigger -/

/-- Clearing takes the batches of the trigger, and those about the trigger. -/
theorem hasTrigger_clear_iff :
    (s.clear (.ofTrigger trigger)).HasTrigger other tag key ↔
      s.HasTrigger other tag key ∧ other ≠ trigger ∧ key ≠ .ofPath trigger := by
  simp only [HasTrigger, batchAt?_clear_eq_some_iff, Selection.asks_ofTrigger_iff]
  constructor
  · rintro ⟨batch, ⟨held, kept⟩, has⟩
    rw [has, Option.some_inj, not_or] at kept
    exact ⟨⟨batch, held, has⟩, kept⟩
  · rintro ⟨⟨batch, held, has⟩, kept⟩
    rw [← not_or, ← Option.some_inj, ← has] at kept
    exact ⟨batch, ⟨held, kept⟩, has⟩

theorem size_sub_size_keep (selection : Selection) (files : FileMap) :
    files.size - (keep selection files).size =
      files.entries.countP fun b => selection.selects b.1 b.2 := by
  have kept : (keep selection files).size =
      files.entries.countP fun b => !selection.selects b.1 b.2 := List.countP_eq_length_filter.symm
  have counts := List.length_eq_countP_add_countP
    (fun b : FileKey × Batch => selection.selects b.1 b.2) (l := files.entries)
  simp only [Bool.not_eq_true, Bool.decide_eq_false] at counts
  rw [kept, SortedMap.size]
  omega

theorem length_filter_trigger_le (files : FileMap) (trigger : String) :
    (files.entries.filter fun b => b.2.trigger = some trigger).length ≤
      files.size - (keep (.ofTrigger trigger) files).size := by
  rw [← List.countP_eq_length_filter, size_sub_size_keep]
  refine List.countP_mono_left fun b _ has => Selection.selects_iff.2 ?_
  exact Selection.asks_ofTrigger_iff.2 (Or.inl (of_decide_eq_true has))

/-- Each file of a trigger has a batch that goes when the trigger is cleared. -/
theorem length_triggeredBy_le (s : Store) (trigger : String) :
    (s.triggeredBy trigger).length ≤ s.selectedCount (.ofTrigger trigger) := by
  have notVoid : (Selection.ofTrigger trigger).isEmpty = false := rfl
  calc (s.triggeredBy trigger).length
      ≤ (s.triggerPlaces trigger).length := by
        rw [triggeredBy_eq]
        exact (distinct_sublist _).length_le.trans_eq (List.length_map _)
    _ = (s.byTag.entries.map fun e =>
          (e.2.entries.filter fun b => b.2.trigger = some trigger).length).sum := by
        simp only [triggerPlaces, List.length_flatMap, List.length_map]
    _ ≤ (s.byTag.entries.map fun e => e.2.size - (keep (.ofTrigger trigger) e.2).size).sum :=
        List.sum_le_sum fun e _ => length_filter_trigger_le e.2 trigger
    _ = s.selectedCount (.ofTrigger trigger) := by
        rw [selectedCount, notVoid, if_neg Bool.false_ne_true, SortedMap.total_eq_sum]

/-- How the files of a trigger are listed, and what becomes of them when the
trigger is cleared. -/
structure ListsTrigger (s : Store) (trigger : String) : Prop where
  nodup : (s.triggeredBy trigger).Nodup
  mem_iff : ∀ key, key ∈ s.triggeredBy trigger ↔ ∃ tag, s.HasTrigger trigger tag key
  /-- The files are listed by the first tag that has a batch of theirs with the
  trigger, and for one tag by their own text. -/
  ascends : (s.triggeredBy trigger).Pairwise fun a b => ∃ tag tag',
    s.FirstTrigger trigger tag a ∧ s.FirstTrigger trigger tag' b ∧ BatchBefore (tag, a) (tag', b)
  cleared_eq_nil : (s.clear (.ofTrigger trigger)).triggeredBy trigger = []
  cleared_batchAt? : ∀ tag, (s.clear (.ofTrigger trigger)).batchAt? tag (.ofPath trigger) = none
  length_le : (s.triggeredBy trigger).length ≤ s.selectedCount (.ofTrigger trigger)
  /-- Other triggers keep the files that still have a batch of theirs, which are all
  but the cleared trigger itself. -/
  mem_cleared_iff : ∀ other ≠ trigger, ∀ key,
    (key ∈ (s.clear (.ofTrigger trigger)).triggeredBy other ↔
        key ∈ s.triggeredBy other ∧ ∃ tag, (s.clear (.ofTrigger trigger)).HasTrigger other tag key) ∧
      (key ∈ (s.clear (.ofTrigger trigger)).triggeredBy other ↔
        key ∈ s.triggeredBy other ∧ key ≠ .ofPath trigger)

/-- Whatever a store holds, looking for the files of a trigger and clearing the
trigger agree. -/
theorem listsTrigger (s : Store) (trigger : String) : s.ListsTrigger trigger where
  nodup := nodup_distinct _
  mem_iff _ := mem_triggeredBy_iff
  ascends := triggeredBy_pairwise s trigger
  cleared_eq_nil := by
    refine List.eq_nil_iff_forall_not_mem.2 fun key mem => ?_
    obtain ⟨tag, has⟩ := mem_triggeredBy_iff.1 mem
    exact (hasTrigger_clear_iff.1 has).2.1 rfl
  cleared_batchAt? tag := by
    refine Option.eq_none_iff_forall_ne_some.2 fun batch held => ?_
    exact (batchAt?_clear_eq_some_iff.1 held).2 (Selection.asks_ofTrigger_iff.2 (Or.inr rfl))
  length_le := length_triggeredBy_le s trigger
  mem_cleared_iff other ne key := by
    have left : (∃ tag, (s.clear (.ofTrigger trigger)).HasTrigger other tag key) ↔
        (∃ tag, s.HasTrigger other tag key) ∧ key ≠ .ofPath trigger := by
      simp only [hasTrigger_clear_iff, ne, ne_eq, not_false_eq_true, true_and, exists_and_right]
    have before : key ∈ s.triggeredBy other ↔ ∃ tag, s.HasTrigger other tag key := mem_triggeredBy_iff
    have after : key ∈ (s.clear (.ofTrigger trigger)).triggeredBy other ↔
        ∃ tag, (s.clear (.ofTrigger trigger)).HasTrigger other tag key := mem_triggeredBy_iff
    rw [after, before, left]
    exact ⟨⟨fun held => ⟨held.1, held⟩, And.right⟩, Iff.rfl⟩

/-- A file under two tags with two triggers. The trigger that is cleared is itself a
file with a batch, and the other one has a file left. -/
example :
    let batch := fun trigger => (⟨some trigger, []⟩ : Batch)
    let s := ofHistory
      [.report ⟨"b"⟩ "x.ts" (batch "run"), .report ⟨"a"⟩ "y.ts" (batch "run"),
        .report ⟨"a"⟩ "x.ts" (batch "y.ts"), .report ⟨"b"⟩ "y.ts" (batch "y.ts")]
    s.triggeredBy "run" = [.ofPath "y.ts", .ofPath "x.ts"] ∧
      s.triggeredBy "y.ts" = [.ofPath "x.ts", .ofPath "y.ts"] ∧
        s.selectedCount (.ofTrigger "y.ts") = 3 ∧
          (s.clear (.ofTrigger "y.ts")).triggeredBy "run" = [.ofPath "x.ts"] := by
  decide +kernel

end Store

end DiagnosticFeed
