import DiagnosticFeed.Proofs.Store.History
import DiagnosticFeed.Proofs.Store.Stocked
import DiagnosticFeed.Proofs.Text.ByteOrder
import Mathlib.Algebra.GroupWithZero.Nat

/-!
# How a store is listed

The listing of a store has every issue that it holds exactly once: the issues
are those at its places, the places of a store are a list without repetition,
and their order is that of the tags, within a tag that of the files, and within a
file that of the producer (`Place.Before`). Tags and files are ordered by the
bytes of their texts. No tag is listed without files, so a store that lists no
tag holds nothing.
-/

namespace DiagnosticFeed

namespace SortedMap

variable {κ α β : Type} [TextKey κ]

theorem keys_ascend (m : SortedMap κ α) :
    m.keys.Pairwise fun a b => Text.bytes (TextKey.text a) < Text.bytes (TextKey.text b) :=
  List.pairwise_map.2 (m.sorted.imp Text.bytes_lt_bytes_iff.2)

theorem total_eq_zero_iff {m : SortedMap κ α} {number : α → Nat} :
    m.total number = 0 ↔ ∀ e ∈ m.entries, number e.2 = 0 := by
  simp only [total, values]
  induction m.entries with
  | nil => simp
  | cons e rest ih => simp [ih]

theorem total_eq_sum (m : SortedMap κ α) (number : α → Nat) :
    m.total number = (m.entries.map fun e => number e.2).sum := by
  simp only [total, values]
  induction m.entries with
  | nil => rfl
  | cons e rest ih => simp [ih]

end SortedMap

/-- A place in a store: a tag, a key, and the number of issues in front of it in
their batch. -/
structure Place where
  tag : Tag
  key : FileKey
  position : Nat

/-- Places are ordered by the bytes of their tags, for one tag by the bytes of
their keys, and for one key by position. -/
def Place.Before (p q : Place) : Prop :=
  Text.bytes p.tag.name < Text.bytes q.tag.name ∨
    p.tag = q.tag ∧ (Text.bytes p.key.text < Text.bytes q.key.text ∨
      p.key = q.key ∧ p.position < q.position)

namespace Store

def issueAt? (s : Store) (p : Place) : Option Diagnostic :=
  (s.batchAt? p.tag p.key).bind fun batch => batch.diagnostics[p.position]?

def filesOf (s : Store) (tag : Tag) : List FileKey :=
  ((s.byTag.get? tag).map SortedMap.keys).getD []

def placesIn (tag : Tag) (key : FileKey) (batch : Batch) : List Place :=
  (List.range batch.diagnostics.length).map fun position => ⟨tag, key, position⟩

def placesUnder (tag : Tag) (files : FileMap) : List Place :=
  files.entries.flatMap fun e => placesIn tag e.1 e.2

def places (s : Store) : List Place := s.byTag.entries.flatMap fun e => placesUnder e.1 e.2

variable {s : Store}

/-! ## Files -/

theorem mem_filesOf_iff {tag : Tag} {key : FileKey} :
    key ∈ s.filesOf tag ↔ (s.batchAt? tag key).isSome := by
  rw [filesOf, batchAt?]
  cases s.byTag.get? tag with
  | none => simp
  | some files =>
      simp [SortedMap.keys, Option.isSome_iff_exists, SortedMap.get?_eq_some_iff]

theorem filesOf_ascend (s : Store) (tag : Tag) :
    (s.filesOf tag).Pairwise fun a b => Text.bytes a.text < Text.bytes b.text := by
  rw [filesOf]
  cases s.byTag.get? tag with
  | none => exact .nil
  | some files => exact files.keys_ascend

/-- A file that is held was named by a report. -/
theorem exists_report_of_mem_filesOf {history : List Mutation} {tag : Tag} {key : FileKey}
    (h : key ∈ (ofHistory history).filesOf tag) :
    ∃ file batch, .report tag file batch ∈ history ∧ key = .ofPath file := by
  obtain ⟨batch, held⟩ := Option.isSome_iff_exists.1 (mem_filesOf_iff.1 h)
  obtain ⟨later, ⟨⟨earlier, file, rfl, same⟩, -⟩, -⟩ := batchAt?_ofHistory_iff.1 held
  exact ⟨file, batch, by simp, same.symm⟩

theorem isEmpty_iff_tags (s : Store) : s.isEmpty = true ↔ s.tags = [] := by
  rw [isEmpty, SortedMap.isEmpty, List.isEmpty_iff, tags, SortedMap.keys, List.map_eq_nil_iff]

theorem Stocked.isEmpty_iff_fileCount (h : s.Stocked) : s.isEmpty = true ↔ s.fileCount = 0 := by
  rw [isEmpty, SortedMap.isEmpty, List.isEmpty_iff, fileCount, SortedMap.total_eq_zero_iff]
  constructor
  · intro none' e mem
    rw [none'] at mem
    cases mem
  · intro noFiles
    refine List.eq_nil_iff_forall_not_mem.2 fun e mem => h e mem (SortedMap.ext ?_)
    exact List.eq_nil_of_length_eq_zero (noFiles e mem)

/-! ## Places -/

theorem placesIn_pairwise (tag : Tag) (key : FileKey) (batch : Batch) :
    (placesIn tag key batch).Pairwise Place.Before := by
  refine List.pairwise_map.2 (List.pairwise_lt_range.imp fun less => ?_)
  exact Or.inr ⟨rfl, Or.inr ⟨rfl, less⟩⟩

theorem placesUnder_pairwise (tag : Tag) (files : FileMap) :
    (placesUnder tag files).Pairwise Place.Before := by
  refine List.pairwise_flatMap.2 ⟨fun e _ => placesIn_pairwise tag e.1 e.2, ?_⟩
  refine files.sorted.imp fun less p hp q hq => ?_
  obtain ⟨_, -, rfl⟩ := List.mem_map.1 hp
  obtain ⟨_, -, rfl⟩ := List.mem_map.1 hq
  exact Or.inr ⟨rfl, Or.inl (Text.bytes_lt_bytes_iff.2 less)⟩

theorem tag_of_mem_placesUnder {tag : Tag} {files : FileMap} {p : Place}
    (h : p ∈ placesUnder tag files) : p.tag = tag := by
  obtain ⟨_, -, inBatch⟩ := List.mem_flatMap.1 h
  obtain ⟨_, -, rfl⟩ := List.mem_map.1 inBatch
  rfl

theorem places_pairwise (s : Store) : s.places.Pairwise Place.Before := by
  refine List.pairwise_flatMap.2 ⟨fun e _ => placesUnder_pairwise e.1 e.2, ?_⟩
  refine s.byTag.sorted.imp fun less p hp q hq => Or.inl ?_
  rw [tag_of_mem_placesUnder hp, tag_of_mem_placesUnder hq]
  exact Text.bytes_lt_bytes_iff.2 less

theorem mem_places_iff {p : Place} : p ∈ s.places ↔ (s.issueAt? p).isSome := by
  obtain ⟨tag, key, position⟩ := p
  simp only [places, placesUnder, placesIn, List.mem_flatMap, List.mem_map, List.mem_range,
    Place.mk.injEq, issueAt?, Option.isSome_iff_exists, Option.bind_eq_some_iff,
    batchAt?_eq_some_iff]
  constructor
  · rintro ⟨⟨tag', files⟩, inStore, ⟨key', batch⟩, inFiles, _, less, rfl, rfl, rfl⟩
    exact ⟨_, batch, ⟨files, inStore, inFiles⟩, List.getElem?_eq_getElem less⟩
  · rintro ⟨d, batch, ⟨files, inStore, inFiles⟩, found⟩
    have less := (List.getElem?_eq_some_iff.1 found).1
    exact ⟨(tag, files), inStore, (key, batch), inFiles, position, less, rfl, rfl, rfl⟩

theorem map_placesIn {tag : Tag} {key : FileKey} {batch : Batch}
    (held : s.batchAt? tag key = some batch) :
    (placesIn tag key batch).map (fun p => (s.issueAt? p).map fun d => (p.key, d)) =
      (batch.diagnostics.map fun d => (key, d)).map some := by
  refine List.ext_getElem (by simp [placesIn]) fun i _ _ => ?_
  simp [placesIn, issueAt?, held]

theorem issues_eq_map_places (s : Store) :
    s.issues.map some = s.places.map fun p => (s.issueAt? p).map fun d => (p.key, d) := by
  rw [issues, places, List.map_flatMap, List.map_flatMap, SortedMap.values, List.flatMap_map]
  refine List.flatMap_congr fun e inStore => ?_
  rw [issuesOf, placesUnder, List.map_flatMap, List.map_flatMap]
  refine List.flatMap_congr fun b inFiles => ?_
  exact (map_placesIn (batchAt?_eq_some_iff.2 ⟨e.2, inStore, inFiles⟩)).symm

theorem length_issues (s : Store) : s.issues.length = s.issueCount := by
  have ofFiles : ∀ files : FileMap,
      (issuesOf files).length = files.total fun batch => batch.diagnostics.length := by
    intro files
    rw [issuesOf, List.length_flatMap, SortedMap.total_eq_sum]
    simp only [List.length_map]
  rw [issues, issueCount, List.length_flatMap, SortedMap.total_eq_sum, SortedMap.values,
    List.map_map]
  simp only [ofFiles, Function.comp_def]

/-! ## The listing -/

/-- How a store that is reached by some history is listed. -/
structure Listing (s : Store) (history : List Mutation) : Prop where
  filesOf_ne_nil : ∀ tag ∈ s.tags, s.filesOf tag ≠ []
  isEmpty_iff_fileCount : s.isEmpty = true ↔ s.fileCount = 0
  isEmpty_iff_tags : s.isEmpty = true ↔ s.tags = []
  tags_ascend : s.tags.Pairwise fun a b => Text.bytes a.name < Text.bytes b.name
  filesOf_ascend : ∀ tag, (s.filesOf tag).Pairwise fun a b => Text.bytes a.text < Text.bytes b.text
  filesOf_normal : ∀ tag, ∀ key ∈ s.filesOf tag,
    ∃ file batch, .report tag file batch ∈ history ∧ key.text = normalText file
  /-- The issues are listed place by place, and their places are all that there
  are. -/
  issues_eq : ∃ places : List Place, places.Pairwise Place.Before ∧
    (∀ p, p ∈ places ↔ (s.issueAt? p).isSome) ∧
      s.issues.map some = places.map fun p => (s.issueAt? p).map fun d => (p.key, d)
  length_issues : s.issues.length = s.issueCount

/-- Every store that is reached has a listing without bare tags, in order, and
with every issue once. -/
theorem listing_ofHistory (history : List Mutation) : (ofHistory history).Listing history where
  filesOf_ne_nil tag held := by
    obtain ⟨e, mem, rfl⟩ := List.mem_map.1 held
    obtain ⟨key, batch, found⟩ :=
      (stocked_ofHistory history).exists_batchAt? (SortedMap.get?_eq_some_iff.2 mem)
    exact List.ne_nil_of_mem (mem_filesOf_iff.2 (Option.isSome_iff_exists.2 ⟨batch, found⟩))
  isEmpty_iff_fileCount := (stocked_ofHistory history).isEmpty_iff_fileCount
  isEmpty_iff_tags := isEmpty_iff_tags _
  tags_ascend := SortedMap.keys_ascend _
  filesOf_ascend := filesOf_ascend _
  filesOf_normal tag key mem := by
    obtain ⟨file, batch, reported, rfl⟩ := exists_report_of_mem_filesOf mem
    exact ⟨file, batch, reported, rfl⟩
  issues_eq := ⟨_, places_pairwise _, fun _ => mem_places_iff, issues_eq_map_places _⟩
  length_issues := length_issues _

end Store

end DiagnosticFeed
