import DiagnosticFeed.Log.Rendering
import DiagnosticFeed.Proofs.Json.Scanning
import DiagnosticFeed.Proofs.Json.Sorted
import DiagnosticFeed.Proofs.Report.Grouping

/-!
# What is written of a transcript

What a reader finds of each entry is written out here by itself: the value that
its line of JSON holds (`Entry.written`), where the members of every object stand
in the order of their keys, and the block of text that it has (`Entry.Prints`).
-/

namespace DiagnosticFeed

/-- A number that is written with digits only. -/
def Json.count (n : Nat) : Json := .number ⟨false, n, [], none⟩

def Point.written (p : Point) : Json :=
  .object [(some "column", .count p.column.toNat), (some "row", .count p.row.toNat)]

theorem Point.sorted_toJson (p : Point) : p.toJson.sorted = p.written :=
  Json.sorted_record_of_perm (.swap _ _ _)
    (show ["column", "row"].Pairwise (· < ·) by decide)

def Location.written (l : Location) : Json :=
  .object [(some "line", .count l.line.toNat), (some "offset", .count l.offset.toNat)]

theorem Location.sorted_toJson (l : Location) : l.toJson.sorted = l.written :=
  Json.sorted_record_of_perm (.refl _)
    (show ["line", "offset"].Pairwise (· < ·) by decide)

namespace Message

def severityWord : Severity → String
  | .error => "error"
  | .warning => "warning"
  | .info => "info"

def written (m : Message) : Json :=
  .object
    [(some "excerpt", .text (some m.excerpt)),
      (some "location", .object
        [(some "file", .text (some m.file)),
          (some "position", .object
            [(some "end", m.span.stop.written), (some "start", m.span.start.written)])]),
      (some "severity", .text (some (severityWord m.severity)))]

theorem sorted_position (m : Message) : m.span.toJson.sorted =
    .object [(some "end", m.span.stop.written), (some "start", m.span.start.written)] := by
  rw [← Point.sorted_toJson, ← Point.sorted_toJson]
  exact Json.sorted_record_of_perm (.swap _ _ _)
    (show ["end", "start"].Pairwise (· < ·) by decide)

theorem sorted_toJson (m : Message) : m.toJson.sorted = m.written := by
  have word : m.severity.toJson.sorted = .text (some (severityWord m.severity)) := by
    cases m.severity <;> rfl
  have location : (Json.record
      [("file", .string m.file), ("position", m.span.toJson)]).sorted = .object
        [(some "file", .text (some m.file)), (some "position", m.span.toJson.sorted)] :=
    Json.sorted_record_of_perm (.refl _)
      (show ["file", "position"].Pairwise (· < ·) by decide)
  rw [written, ← sorted_position, ← location, ← word]
  exact Json.sorted_record_of_perm ((List.Perm.swap _ _ _).trans (.cons _ (.swap _ _ _)))
    (show ["excerpt", "location", "severity"].Pairwise (· < ·) by decide)

end Message

namespace Diagnostic

def categoryWord : Category → String
  | .error => "error"
  | .warning => "warning"
  | .suggestion => "suggestion"
  | .message => "message"

def writtenCode : Code → Json
  | .number n => .count n.toNat
  | .name s => .text (some s)

/-- The members that are not known are left out, and so is a mark that is not set. -/
def writtenMembers (d : Diagnostic) : List (Option String × Json) :=
  [(some "category", .text (some (categoryWord d.category))),
    (some "code", writtenCode d.code)] ++
    (d.stop.map fun l => (some "end", l.written)).toList ++
    (if d.reportsUnnecessary then [(some "reportsUnnecessary", .boolean true)] else []) ++
    (d.source.map fun s => (some "source", Json.text (some s))).toList ++
    (d.start.map fun l => (some "start", l.written)).toList ++
    [(some "text", .text (some d.text))]

def written (d : Diagnostic) : Json := .object d.writtenMembers

theorem ascends_written (d : Diagnostic) : (d.writtenMembers.map Json.keyText).Pairwise (· < ·) := by
  have mark : ((if d.reportsUnnecessary then [(some "reportsUnnecessary", Json.boolean true)]
      else []).map Json.keyText).Sublist ["reportsUnnecessary"] := by
    split
    · exact .refl _
    · exact List.nil_sublist _
  have keys : (d.writtenMembers.map Json.keyText).Sublist
      ["category", "code", "end", "reportsUnnecessary", "source", "start", "text"] := by
    simp only [writtenMembers, List.map_append]
    exact (((((List.Sublist.refl ["category", "code"]).append
      (Json.keyText_known_sublist "end" _)).append mark).append
      (Json.keyText_known_sublist "source" _)).append
      (Json.keyText_known_sublist "start" _)).append (.refl ["text"])
  exact List.Pairwise.sublist keys (by decide)

theorem sorted_toJson (d : Diagnostic) : d.toJson.sorted = d.written := by
  refine Json.sorted_record_of_perm ?_ d.ascends_written
  have category : d.category.toJson.sorted = .text (some (categoryWord d.category)) := by
    cases d.category <;> rfl
  have code : d.code.toJson.sorted = writtenCode d.code := by cases d.code <;> rfl
  have mark : (if d.reportsUnnecessary then [("reportsUnnecessary", Json.boolean true)]
      else []).map (fun m => (some m.1, m.2.sorted)) =
        if d.reportsUnnecessary then [(some "reportsUnnecessary", .boolean true)] else [] := by
    split <;> rfl
  have start := Json.map_sorted_knownMember "start" Location.sorted_toJson d.start
  have stop := Json.map_sorted_knownMember "end" Location.sorted_toJson d.stop
  have source : (Json.knownMember "source" Json.string d.source).map
      (fun m => (some m.1, m.2.sorted)) =
        (d.source.map fun s => (some "source", Json.text (some s))).toList :=
    Json.map_sorted_knownMember "source" (fun _ => rfl) d.source
  simp only [List.map_append, start, stop, mark, source, List.map_cons, category, code,
    writtenMembers, List.append_assoc, List.cons_append, List.nil_append]
  refine .cons _ (.cons _ ?_)
  -- the text and the start go behind the rest, which is in order
  refine (List.perm_append_singleton _ _).symm.trans ?_
  refine (List.perm_append_comm.append_right _).trans ?_
  simp only [List.append_assoc]
  exact .refl _

end Diagnostic

namespace Log

namespace Entry

/-- The object that stands on the line of an entry in JSON. -/
def written : Entry → Json
  | publication number messages =>
    .object
      [(some "messages", .array (messages.map Message.written)), (some "seq", .count number),
        (some "type", .text (some "publish"))]
  | found file issues =>
    .object
      [(some "diagnostics", .array (issues.map Diagnostic.written)),
        (some "file", .text (some file)), (some "type", .text (some "query"))]
  | triggered trigger files =>
    .object
      [(some "files", .array (files.map fun file => .text (some file.text))),
        (some "triggerFile", .text (some trigger)), (some "type", .text (some "triggered"))]

theorem sorted_toJson (e : Entry) : e.toJson.sorted = e.written := by
  cases e with
  | publication number messages =>
      have sets : (Json.array (messages.map Message.toJson)).sorted =
          .array (messages.map Message.written) := by
        rw [Json.sorted_array_map, funext Message.sorted_toJson]
      rw [written, ← sets]
      exact Json.sorted_record_of_perm (List.reverse_perm _).symm
        (show ["messages", "seq", "type"].Pairwise (· < ·) by decide)
  | found file issues =>
      have answer : (Json.array (issues.map Diagnostic.toJson)).sorted =
          .array (issues.map Diagnostic.written) := by
        rw [Json.sorted_array_map, funext Diagnostic.sorted_toJson]
      rw [written, ← answer]
      exact Json.sorted_record_of_perm (List.reverse_perm _).symm
        (show ["diagnostics", "file", "type"].Pairwise (· < ·) by decide)
  | triggered trigger files =>
      have answer : (Json.strings (files.map (·.text))).sorted =
          .array (files.map fun file => .text (some file.text)) := by
        rw [Json.strings, List.map_map]
        exact Json.sorted_array_map _ _
      rw [written, ← answer]
      exact Json.sorted_record_of_perm (List.reverse_perm _).symm
        (show ["files", "triggerFile", "type"].Pairwise (· < ·) by decide)

/-- The line of an entry in JSON, without the line feed behind it. -/
def line (e : Entry) : String := e.toJson.sorted.compact

theorem newline_notMem_line (e : Entry) : '\n' ∉ e.line.toList :=
  Json.newline_notMem_compact _

theorem parse?_line (e : Entry) : Json.parse? e.line = some e.written := by
  rw [line, Json.parse?_compact, sorted_toJson]

/-- The block of text that an entry has. A publication has a heading with its number,
the report of its messages and an empty line; the other entries are told apart from it
by their headings. -/
def Prints (block : String) : Entry → Prop
  | publication number messages => ∃ groups, Message.Grouped messages groups ∧
      block = "== publish " ++ number.repr ++ " ==\n" ++
        Message.groupedText messages groups ++ "\n\n"
  | found file _ => ∃ rest, block = "== query " ++ file ++ ": " ++ rest
  | triggered trigger _ => ∃ rest, block = "== triggered by " ++ trigger ++ ": " ++ rest

theorem prints_text (e : Entry) : e.Prints e.text := by
  cases e with
  | publication number messages =>
      refine ⟨_, Message.grouped_files messages, ?_⟩
      simp only [text, heading, Message.report_eq_groupedText, String.append_assoc]
      rw [← String.append_assoc]
      rfl
  | found file issues =>
      refine ⟨Tally.counted issues.length "match" "es" ++ " ==\n" ++
        String.join (issues.map issueLine) ++ "\n", ?_⟩
      simp only [text, heading, String.append_assoc]
      rw [← String.append_assoc]
      rfl
  | triggered trigger files =>
      refine ⟨Tally.counted files.length "file" "s" ++ " ==\n" ++
        String.join (files.map fun file => "  " ++ file.text ++ "\n") ++ "\n", ?_⟩
      simp only [text, heading, String.append_assoc]
      rw [← String.append_assoc]
      rfl

end Entry

theorem Transcript.rendered_json (t : Transcript) :
    t.rendered .json = String.join ((t.entries.map Entry.line).map (· ++ "\n")) := by
  rw [List.map_map]
  rfl

theorem Transcript.rendered_text (t : Transcript) :
    t.rendered .text = String.join (t.entries.map Entry.text) := rfl

end Log

end DiagnosticFeed
