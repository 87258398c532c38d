import DiagnosticFeed.Report
import Mathlib.Data.Finset.Card
import Mathlib.Data.List.Perm.Basic

/-!
# Reports as groups of messages

A report shows its messages in groups, one for each file (`Grouped`). Nothing more
has to be said about the groups: the files are in the order of their first
messages, the messages of a group are about its file and in the order that they
were given in, and all groups together have every message once. There is one way to
group messages so, and the report is made of it (`report_eq_groups`): what it says
of each message and in its summary is written out in `groupedText`.
-/

namespace DiagnosticFeed

namespace Message

/-- The messages are taken apart by file. -/
structure Grouped (messages : List Message) (groups : List (String × List Message)) : Prop where
  /-- The files come in the order of their first messages. -/
  ascends : (groups.map (·.1)).Pairwise fun a b =>
    (messages.map (·.file)).idxOf a < (messages.map (·.file)).idxOf b
  ne_nil : ∀ g ∈ groups, g.2 ≠ []
  file_eq : ∀ g ∈ groups, ∀ m ∈ g.2, m.file = g.1
  /-- In a group the order of the messages stays. -/
  sublist : ∀ g ∈ groups, g.2.Sublist messages
  /-- Every message is in the groups, as often as it was given. -/
  perm : (groups.flatMap (·.2)).Perm messages

variable {messages : List Message} {groups : List (String × List Message)}

theorem nodup_files (messages : List Message) : (files messages).Nodup := nodup_distinct _

theorem mem_files_iff {f : String} : f ∈ files messages ↔ f ∈ messages.map (·.file) := mem_distinct

/-! ## There is a grouping -/

/-- Picking the messages of one file after another gives all of them. -/
theorem flatMap_filter_file_perm {files : List String} (nodup : files.Nodup) :
    ∀ {messages : List Message}, (∀ m ∈ messages, m.file ∈ files) →
      (files.flatMap fun f => messages.filter (·.file = f)).Perm messages := by
  induction files with
  | nil =>
      intro messages covers
      rw [List.eq_nil_iff_forall_not_mem.2 fun m mem => List.not_mem_nil (covers m mem)]
      exact .nil
  | cons f rest ih =>
      intro messages covers
      obtain ⟨notLater, nodupRest⟩ := List.nodup_cons.1 nodup
      have others : ∀ g ∈ rest, messages.filter (·.file = g) =
          (messages.filter fun m => !decide (m.file = f)).filter (·.file = g) := by
        intro g mem
        rw [List.filter_filter]
        refine List.filter_congr fun m _ => ?_
        have ne : g ≠ f := fun same => notLater (same ▸ mem)
        by_cases about : m.file = g
        · simp [about, ne]
        · simp [about]
      have later : ∀ m ∈ messages.filter (fun m => !decide (m.file = f)), m.file ∈ rest := by
        intro m mem
        obtain ⟨given, notF⟩ := List.mem_filter.1 mem
        exact (List.mem_cons.1 (covers m given)).resolve_left (by simpa using notF)
      rw [List.flatMap_cons, List.flatMap_congr others]
      exact ((ih nodupRest later).append_left _).trans (List.filter_append_perm _ _)

theorem grouped_files (messages : List Message) :
    Grouped messages ((files messages).map fun f => (f, messages.filter (·.file = f))) where
  ascends := by
    rw [List.map_map]
    simpa [Function.comp_def, files] using distinct_pairwise_idxOf (messages.map (·.file))
  ne_nil := by
    intro g mem
    obtain ⟨f, hf, rfl⟩ := List.mem_map.1 mem
    obtain ⟨m, given, about⟩ := List.mem_map.1 (mem_files_iff.1 hf)
    exact List.ne_nil_of_mem (List.mem_filter.2 ⟨given, by simpa using about⟩)
  file_eq := by
    intro g mem m hm
    obtain ⟨f, -, rfl⟩ := List.mem_map.1 mem
    simpa using (List.mem_filter.1 hm).2
  sublist := by
    intro g mem
    obtain ⟨f, -, rfl⟩ := List.mem_map.1 mem
    exact List.filter_sublist
  perm := by
    rw [List.flatMap_map]
    refine flatMap_filter_file_perm (nodup_files messages) fun m given => ?_
    exact mem_files_iff.2 (List.mem_map_of_mem given)

/-! ## There is no other grouping -/

namespace Grouped

theorem nodup (h : Grouped messages groups) : (groups.map (·.1)).Nodup :=
  h.ascends.imp fun less same => by
    rw [same] at less
    exact Nat.lt_irrefl _ less

theorem mem_map_fst_iff (h : Grouped messages groups) {f : String} :
    f ∈ groups.map (·.1) ↔ f ∈ messages.map (·.file) := by
  simp only [List.mem_map]
  constructor
  · rintro ⟨g, hg, rfl⟩
    obtain ⟨m, hm⟩ := List.exists_mem_of_ne_nil _ (h.ne_nil g hg)
    exact ⟨m, (h.sublist g hg).mem hm, h.file_eq g hg m hm⟩
  · rintro ⟨m, given, rfl⟩
    obtain ⟨g, hg, hm⟩ := List.mem_flatMap.1 (h.perm.mem_iff.2 given)
    exact ⟨g, hg, (h.file_eq g hg m hm).symm⟩

theorem map_fst_eq (h : Grouped messages groups) : groups.map (·.1) = files messages := by
  have sameFiles : (groups.map (·.1)).Perm (files messages) := by
    rw [List.perm_ext_iff_of_nodup h.nodup (nodup_files messages)]
    intro f
    rw [h.mem_map_fst_iff, mem_files_iff]
  refine sameFiles.eq_of_pairwise (fun a b _ _ less greater => ?_) h.ascends
    (distinct_pairwise_idxOf _)
  exact absurd less (Nat.lt_asymm greater)

end Grouped

/-- Among the messages of all groups, those about a file are those of its group. -/
theorem filter_flatMap_groups (nodup : (groups.map (·.1)).Nodup)
    (file_eq : ∀ g ∈ groups, ∀ m ∈ g.2, m.file = g.1) {g : String × List Message} (mem : g ∈ groups) :
    (groups.flatMap (·.2)).filter (·.file = g.1) = g.2 := by
  induction groups with
  | nil => cases mem
  | cons first rest ih =>
      rw [List.map_cons, List.nodup_cons] at nodup
      obtain ⟨notLater, nodupRest⟩ := nodup
      obtain ⟨firstEq, restEq⟩ := List.forall_mem_cons.1 file_eq
      have apart : ∀ g ∈ rest, g.1 ≠ first.1 := fun g hg same =>
        notLater (same ▸ List.mem_map_of_mem hg)
      rw [List.flatMap_cons, List.filter_append]
      rcases List.mem_cons.1 mem with rfl | later
      · have all : g.2.filter (·.file = g.1) = g.2 :=
          List.filter_eq_self.2 fun m hm => by simpa using firstEq m hm
        have none' : (rest.flatMap (·.2)).filter (·.file = g.1) = [] := by
          refine List.filter_eq_nil_iff.2 fun m hm => ?_
          obtain ⟨g', hg', hm⟩ := List.mem_flatMap.1 hm
          simpa [restEq g' hg' m hm] using apart g' hg'
        rw [all, none', List.append_nil]
      · have none' : first.2.filter (·.file = g.1) = [] := by
          refine List.filter_eq_nil_iff.2 fun m hm => ?_
          simpa [firstEq m hm] using (apart g later).symm
        rw [none', List.nil_append, ih nodupRest restEq later]

namespace Grouped

theorem snd_eq (h : Grouped messages groups) {g : String × List Message} (mem : g ∈ groups) :
    g.2 = messages.filter (·.file = g.1) := by
  have all : g.2.filter (·.file = g.1) = g.2 :=
    List.filter_eq_self.2 fun m hm => by simpa using h.file_eq g mem m hm
  have among : g.2.Sublist (messages.filter (·.file = g.1)) := all ▸ (h.sublist g mem).filter _
  have sameLength := (h.perm.filter (·.file = g.1)).length_eq
  rw [filter_flatMap_groups h.nodup h.file_eq mem] at sameLength
  exact among.eq_of_length sameLength

theorem eq_grouped_files (h : Grouped messages groups) :
    groups = (files messages).map fun f => (f, messages.filter (·.file = f)) := by
  rw [← h.map_fst_eq, List.map_map]
  refine (List.map_id groups).symm.trans (List.map_congr_left fun g mem => ?_)
  exact Prod.ext rfl (h.snd_eq mem)

end Grouped

/-! ## What a report says

The texts below are what a reader finds in a report, written out by themselves. -/

/-- The column of a report that has the severities, seven characters wide. -/
def severityColumn : Severity → String
  | .error => "error  "
  | .warning => "warning"
  | .info => "info   "

/-- The entry of a message: where it starts, counted from one, its severity and its
excerpt, up to a line feed. -/
def entryText (m : Message) : String :=
  "  " ++ (m.span.start.row + 1).toNat.repr ++ ":" ++ (m.span.start.column + 1).toNat.repr ++
    "  " ++ severityColumn m.severity ++ "  " ++ m.excerpt ++ "\n"

/-- A count with its word. Nothing is said of what there is none of. -/
def countText? (n : Nat) (word : String) : Option String :=
  match n with
  | 0 => none
  | 1 => some ("1 " ++ word)
  | n => some (n.repr ++ " " ++ word ++ "s")

def countTexts (messages : List Message) : List String :=
  [countText? (messages.countP (·.severity = .error)) "error",
    countText? (messages.countP (·.severity = .warning)) "warning",
    countText? (messages.countP (·.severity = .info)) "info"].flatMap Option.toList

def summaryText (messages : List Message) (files : Nat) : String :=
  if messages = [] then "No problems found in 0 file(s)"
  else ", ".intercalate (countTexts messages) ++ " in " ++
    if files = 1 then "1 file" else files.repr ++ " files"

/-- The report that has messages in groups. The groups stand apart by empty lines, and
so does the summary from the last of them. -/
def groupedText (messages : List Message) (groups : List (String × List Message)) : String :=
  "\n".intercalate
      (groups.map fun (file, about) => file ++ "\n" ++ String.join (about.map entryText)) ++
    (if messages = [] then "" else "\n") ++ summaryText messages groups.length

theorem line_eq_entryText (m : Message) : m.line = m.entryText := by
  have column : padBehind 7 m.severity.name = severityColumn m.severity := by
    cases m.severity <;> rfl
  rw [line, entryText, column]

theorem toList_countText? (n : Nat) (word : String) :
    (countText? n word).toList = if n = 0 then [] else [Tally.counted n word "s"] := by
  match n with
  | 0 => rfl
  | 1 => exact congrArg (fun text => [text]) (String.append_empty).symm
  | n + 2 => rfl

/-- Every message has one of the severities that are counted. -/
theorem countP_severity_add (messages : List Message) :
    messages.countP (·.severity = .error) + messages.countP (·.severity = .warning) +
      messages.countP (·.severity = .info) = messages.length := by
  induction messages with
  | nil => rfl
  | cons m rest ih =>
      simp only [List.countP_cons, List.length_cons]
      cases m.severity <;> simp <;> omega

theorem countTexts_eq_nil_iff : countTexts messages = [] ↔ messages = [] := by
  have all := countP_severity_add messages
  rw [← List.length_eq_zero_iff (l := messages), ← all]
  simp only [countTexts, List.flatMap_cons, List.flatMap_nil, toList_countText?,
    List.append_eq_nil_iff, ite_eq_left_iff, List.cons_ne_nil, imp_false, not_not, and_true]
  omega

theorem length_files (messages : List Message) :
    (files messages).length = (messages.map (·.file)).toFinset.card := by
  rw [← List.toFinset_card_of_nodup (nodup_files messages)]
  congr 1
  ext f
  rw [List.mem_toFinset, List.mem_toFinset, mem_files_iff]

theorem counted_file (n : Nat) :
    Tally.counted n "file" "s" = if n = 1 then "1 file" else n.repr ++ " files" := by
  rw [Tally.counted]
  split
  · rename_i one
    rw [one]
    rfl
  · simp only [String.append_assoc]
    rfl

theorem summary_eq_summaryText (messages : List Message) :
    (Tally.ofMessages messages).summary (files messages).length =
      summaryText messages (files messages).length := by
  have parts : (countText? (Tally.ofMessages messages).errors "error").toList ++
      (countText? (Tally.ofMessages messages).warnings "warning").toList ++
        (countText? (Tally.ofMessages messages).infos "info").toList = countTexts messages := by
    simp only [countTexts, List.flatMap_cons, List.flatMap_nil, List.append_nil,
      List.append_assoc]
    rfl
  rw [Tally.summary, summaryText]
  simp only [← toList_countText?, parts]
  cases texts : countTexts messages with
  | nil =>
      obtain rfl := countTexts_eq_nil_iff.1 texts
      rfl
  | cons first others =>
      have some' : messages ≠ [] := fun none => by
        rw [countTexts_eq_nil_iff.2 none] at texts
        cases texts
      simp only [if_neg some', counted_file]

/-- A report is made of the lines of its messages. -/
theorem report_eq_lines (messages : List Message) :
    report messages =
      "\n".intercalate ((files messages).map fun f =>
          f ++ "\n" ++ String.join ((messages.filter (·.file = f)).map line)) ++
        (if messages = [] then "" else "\n") ++
        (Tally.ofMessages messages).summary (files messages).length := by
  have empty : (files messages).isEmpty = decide (messages = []) := by
    cases messages with
    | nil => rfl
    | cons m rest => simp [files, distinct]
  rw [report]
  simp only [empty, decide_eq_true_eq]
  rfl

theorem report_eq_groupedText (messages : List Message) :
    report messages = groupedText messages
      ((files messages).map fun f => (f, messages.filter (·.file = f))) := by
  rw [report_eq_lines, summary_eq_summaryText, groupedText, List.map_map, List.length_map,
    funext line_eq_entryText]
  rfl

/-- There is one way to group messages by file, and the report shows it: a block for
each group with empty lines between the blocks, each the name of the file and the entry
of each message. Behind another empty line, if there are any messages, stands the
summary, of counts that add up to the number of messages, in as many files as the
messages are about. -/
theorem report_eq_groups (messages : List Message) :
    ∃ groups, (∀ other, Grouped messages other ↔ other = groups) ∧
      report messages = groupedText messages groups ∧
        messages.countP (·.severity = .error) + messages.countP (·.severity = .warning) +
            messages.countP (·.severity = .info) = messages.length ∧
          groups.length = (messages.map (·.file)).toFinset.card := by
  refine ⟨(files messages).map fun f => (f, messages.filter (·.file = f)), fun other => ?_, ?_,
    countP_severity_add messages, ?_⟩
  · refine ⟨Grouped.eq_grouped_files, ?_⟩
    rintro rfl
    exact grouped_files messages
  · exact report_eq_groupedText messages
  · rw [List.length_map, length_files]

/-- The second message about a file goes to its first one. -/
example :
    let message := fun (severity : Severity) (file : String) (row column : UInt32) =>
      (⟨severity, "oops", file, .emptyAt ⟨row, column⟩⟩ : Message)
    report [message .error "b.ts" 0 4, message .info "a.ts" 2 0, message .error "b.ts" 7 1] =
      "b.ts\n  1:5  error    oops\n  8:2  error    oops\n\na.ts\n  3:1  info     oops\n\n" ++
        "2 errors, 1 info in 2 files" := by
  decide +kernel

end Message

end DiagnosticFeed
