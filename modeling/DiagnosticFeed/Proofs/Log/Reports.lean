import DiagnosticFeed.Log.Event
import DiagnosticFeed.Proofs.Diagnostic.RoundTrip

/-!
# Reports on the wire

A diagnostic is read back from its own text, and a report from the line of its
event (`Line.read_report`), although the event goes through a buffer and the
diagnostic does not. The members of the event may stand in any order, a trigger
may be left out or null where there is none, and the diagnostics may be left out
where the list is empty.
-/

namespace DiagnosticFeed

open Json (Record)

/-! ## Objects on a line -/

theorem Text.trim_bracketed {a b : Char} (first : isWhiteSpace a = false)
    (last : isWhiteSpace b = false) (inside : List Char) :
    trim (a :: (inside ++ [b])) = a :: (inside ++ [b]) := by
  simp [trim, first, last]

namespace Json

theorem exists_memberTokens_eq (ms : List (Option String × Json)) :
    ∃ ts, memberTokens ms = ts ++ [.closeObject] := by
  induction ms with
  | nil => exact ⟨[], rfl⟩
  | cons m ms ih =>
      obtain ⟨k, v⟩ := m
      obtain ⟨ts, eq⟩ := ih
      exact ⟨.comma :: .text k :: .colon :: (v.tokens ++ ts), by simp [memberTokens, eq]⟩

/-- An object is written between braces. -/
theorem exists_compact_object_eq (ms : List (Option String × Json)) :
    ∃ inside, (object ms).compact.toList = '{' :: (inside ++ ['}']) := by
  cases ms with
  | nil => exact ⟨[], rfl⟩
  | cons m ms =>
      obtain ⟨k, v⟩ := m
      obtain ⟨ts, eq⟩ := exists_memberTokens_eq ms
      refine ⟨(.text k :: .colon :: (v.tokens ++ ts)).flatMap Token.written, ?_⟩
      simp [compact, tokens, eq, Token.written]

end Json

namespace Log

/-- A line that is an object is read as an event. -/
theorem Line.read_compact_object {ms : List (Option String × Json)} {e : Event}
    (given : Event.ofJson? (.object ms) = some e) : read (Json.object ms).compact = event e := by
  obtain ⟨inside, eq⟩ := Json.exists_compact_object_eq ms
  have trimmed : Text.trim (Json.object ms).compact.toList = (Json.object ms).compact.toList := by
    rw [eq]
    exact Text.trim_bracketed rfl rfl inside
  have notSkipped : isSkipped (Json.object ms).compact.toList = false := by
    rw [eq]
    rfl
  simp only [read, trimmed, notSkipped, String.ofList_toList, Json.parse?_compact,
    Option.bind_some, given]
  rfl

namespace Event

/-- The kind of an event may stand anywhere among its members. -/
theorem kindAndFields?_record {kind : String} {given fields : List (String × Json)}
    (untyped : ∀ m ∈ fields, m.1 ≠ "type")
    (perm : given.Perm (("type", .string kind) :: fields)) :
    ∃ rest, rest.Perm fields ∧ kindAndFields? (.record given) = some (kind, .record rest) := by
  have kinds : given.filter (·.1 = "type") = [("type", .string kind)] := by
    have none' : fields.filter (·.1 = "type") = [] := by
      simpa [List.filter_eq_nil_iff] using untyped
    rw [← List.perm_singleton, ← none', ← List.filter_cons_of_pos rfl]
    exact perm.filter _
  have others : (given.filter fun m => !decide (m.1 = "type")).Perm fields := by
    have all : fields.filter (fun m => !decide (m.1 = "type")) = fields := by
      simpa [List.filter_eq_self] using untyped
    rw [← all]
    exact perm.filter _
  refine ⟨_, others, ?_⟩
  have typed : (given.map fun m => (some m.1, m.2)).partition (fun m => m.1 = some "type") =
      ([(some "type", .string kind)],
        (given.filter fun m => !decide (m.1 = "type")).map fun m => (some m.1, m.2)) := by
    rw [List.partition_eq_filter_filter, List.filter_map, List.filter_map]
    simp only [Function.comp_def, Option.some_inj, kinds]
    rfl
  simp only [Json.record, kindAndFields?, typed, Json.string]

/-- An event is read from its kind and its fields, in whatever order its members
are. -/
theorem exists_ofJson?_eq_ofRecord? (kind : String) {names : List String}
    (known : fieldNames? kind = some names) {fields given : List (String × Json)}
    (untyped : ∀ m ∈ fields, m.1 ≠ "type") (nodup : (fields.map (·.1)).Nodup)
    (fit : ∀ m ∈ fields, m.2.fits 126 = true)
    (perm : given.Perm (("type", .string kind) :: fields)) :
    ∃ r : Record, r.listed = false ∧ (∀ name ∈ names, r.get? name = fields.lookup name) ∧
      ofJson? (.record given) = ofRecord? kind r := by
  have bufferable : (Json.record given).isBufferable = true := by
    refine Json.fits_record fun m mem => ?_
    rcases List.mem_cons.1 (perm.mem_iff.1 mem) with rfl | field
    · rfl
    · exact fit m field
  obtain ⟨rest, restPerm, split⟩ := kindAndFields?_record untyped perm
  obtain ⟨r, read, named, found⟩ := Json.exists_record?_eq_of_perm names nodup restPerm
  refine ⟨r, named, found, ?_⟩
  simp only [ofJson?, bufferable, split, known, read, Option.bind_eq_bind, Option.bind_some,
    if_true]

/-! ## Reports -/

variable {tag : Tag} {file : String} {batch : Batch}

def reportFields (tag : Tag) (file : String) (batch : Batch) : List (String × Json) :=
  [("tag", .string tag.name), ("file", .string file),
    ("diagnostics", .array (batch.diagnostics.map Diagnostic.toJson)),
    ("triggerFile", batch.trigger.elim .null .string)]

/-- The fields of a report that say no more than that nothing is there. -/
def emptyFields (batch : Batch) : List String :=
  (if batch.diagnostics = [] then ["diagnostics"] else []) ++
    (if batch.trigger = none then ["triggerFile"] else [])

/-- The members of a report without some of its fields. -/
def reportMembers (tag : Tag) (file : String) (batch : Batch) (omitted : List String) :
    List (String × Json) :=
  ("type", .string "set") ::
    (reportFields tag file batch).filter fun m => m.1 ∉ omitted

theorem mem_emptyFields_iff {name : String} : name ∈ emptyFields batch ↔
    name = "diagnostics" ∧ batch.diagnostics = [] ∨
      name = "triggerFile" ∧ batch.trigger = none := by
  by_cases noDiagnostics : batch.diagnostics = [] <;> by_cases noTrigger : batch.trigger = none <;>
    simp [emptyFields, noDiagnostics, noTrigger]

theorem fits_reportFields :
    ∀ m ∈ reportFields tag file batch, m.2.fits 126 = true := by
  intro m mem
  simp only [reportFields, List.mem_cons, List.not_mem_nil, or_false] at mem
  rcases mem with rfl | rfl | rfl | rfl
  · rfl
  · rfl
  · refine Json.fits_array fun v listed => ?_
    obtain ⟨d, -, rfl⟩ := List.mem_map.1 listed
    exact d.fits_toJson 123
  · cases batch.trigger <;> rfl

theorem lookup_reportFields (tag : Tag) (file : String) (batch : Batch) :
    (reportFields tag file batch).lookup "tag" = some (.string tag.name) ∧
      (reportFields tag file batch).lookup "file" = some (.string file) ∧
      (reportFields tag file batch).lookup "diagnostics" =
        some (.array (batch.diagnostics.map Diagnostic.toJson)) ∧
      (reportFields tag file batch).lookup "triggerFile" =
        some (batch.trigger.elim .null .string) := by
  simp [reportFields, List.lookup_cons]

theorem readReport_of_lookup {omitted : List String} (empty : omitted ⊆ emptyFields batch)
    {r : Record} (named : r.listed = false)
    (fields : ∀ name ∈ ["tag", "file", "diagnostics", "triggerFile"], r.get? name =
      if name ∉ omitted then (reportFields tag file batch).lookup name else none) :
    readReport r = some (.report tag file batch) := by
  obtain ⟨tagField, fileField, diagnosticsField, triggerField⟩ :=
    lookup_reportFields tag file batch
  have shown {name : String} (full : name ∉ emptyFields batch) : name ∉ omitted :=
    fun gone => full (empty gone)
  have tagGiven : r.get? "tag" = some (.string tag.name) := by
    rw [fields _ (by decide), if_pos (shown (by simp [mem_emptyFields_iff])), tagField]
  have fileGiven : r.get? "file" = some (.string file) := by
    rw [fields _ (by decide), if_pos (shown (by simp [mem_emptyFields_iff])), fileField]
  have diagnostics : r.orElse "diagnostics" (Json.toList? (Diagnostic.ofJson? .buffered)) [] =
      some batch.diagnostics := by
    have given := fields "diagnostics" (by decide)
    rw [diagnosticsField] at given
    rw [Record.orElse_of_get? given (Json.toList?_array_map (Diagnostic.ofJson?_toJson _) _)]
    by_cases gone : "diagnostics" ∈ omitted
    · have none' : batch.diagnostics = [] := by simpa [mem_emptyFields_iff] using empty gone
      simp [none']
    · simp [gone]
  have trigger : r.optional "triggerFile" Json.toText? = some batch.trigger := by
    have given := fields "triggerFile" (by decide)
    rw [triggerField] at given
    refine Record.optional_of_get? named given (fun gone => ?_) fun _ => rfl
    simpa [mem_emptyFields_iff] using empty (not_not.1 gone)
  simp only [readReport, Record.required_of_get? tagGiven, Record.required_of_get? fileGiven,
    diagnostics, trigger, Json.string, Json.toText?, Option.bind_eq_bind, Option.bind_some]
  rfl

/-- A report is read from its members in any order. -/
theorem ofJson?_report {omitted : List String} (empty : omitted ⊆ emptyFields batch)
    {given : List (String × Json)} (perm : given.Perm (reportMembers tag file batch omitted)) :
    ofJson? (.record given) = some (.report tag file batch) := by
  have untyped : ∀ m ∈ (reportFields tag file batch).filter fun m => m.1 ∉ omitted,
      m.1 ≠ "type" := by
    intro m mem
    have field := List.mem_of_mem_filter mem
    simp only [reportFields, List.mem_cons, List.not_mem_nil, or_false] at field
    rcases field with rfl | rfl | rfl | rfl <;> simp
  have nodup : ((reportFields tag file batch).map (·.1)).Nodup := by simp [reportFields]
  obtain ⟨r, named, fields, read⟩ := exists_ofJson?_eq_ofRecord? "set" rfl untyped
    ((List.filter_sublist.map _).nodup nodup)
    (fun m mem => fits_reportFields m (List.mem_of_mem_filter mem)) perm
  rw [read]
  refine readReport_of_lookup empty named fun name mem => ?_
  have kept := Json.lookup_filter (reportFields tag file batch) (fun name => name ∉ omitted) name
  simp only [decide_eq_true_eq] at kept
  exact (fields name mem).trans kept

end Event

/-- A diagnostic is read back from its text, and a report from every line with
its members. -/
theorem Line.read_report :
    (∀ d : Diagnostic, Diagnostic.ofText? d.toText = some d) ∧
      ∀ (tag : Tag) (file : String) (batch : Batch) (omitted : List String),
        omitted ⊆ Event.emptyFields batch → ∀ given : List (String × Json),
          given.Perm (Event.reportMembers tag file batch omitted) →
            read (Json.record given).compact = event (.report tag file batch) := by
  refine ⟨Diagnostic.ofText?_toText, fun tag file batch omitted empty given perm => ?_⟩
  exact read_compact_object (Event.ofJson?_report empty perm)

/-- A code that is a number and one that is a text with the same digits. -/
def lookalikes : List Diagnostic :=
  [⟨.error, .number 2322, "\"\\\n", some ⟨1, 4294967295⟩, none, true, none⟩,
    ⟨.suggestion, .name "2322", "é😀\x00", none, some ⟨0, 0⟩, false, some "null"⟩]

theorem Line.read_report_lookalikes :
    ["triggerFile"] ⊆ Event.emptyFields ⟨none, lookalikes⟩ ∧
      [("diagnostics", .array (lookalikes.map Diagnostic.toJson)), ("file", .string "/p/a.ts"),
          ("tag", .string "type"), ("type", Json.string "set")].Perm
        (Event.reportMembers ⟨"type"⟩ "/p/a.ts" ⟨none, lookalikes⟩ ["triggerFile"]) ∧
      read (Json.record [("diagnostics", .array (lookalikes.map Diagnostic.toJson)),
          ("file", .string "/p/a.ts"), ("tag", .string "type"), ("type", .string "set")]).compact =
        event (.report ⟨"type"⟩ "/p/a.ts" ⟨none, lookalikes⟩) := by
  have empty : ["triggerFile"] ⊆ Event.emptyFields ⟨none, lookalikes⟩ := by decide
  have perm := List.reverse_perm
    (Event.reportMembers ⟨"type"⟩ "/p/a.ts" ⟨none, lookalikes⟩ ["triggerFile"])
  exact ⟨empty, perm, read_report.2 _ _ _ _ empty _ perm⟩

end Log

end DiagnosticFeed
