import DiagnosticFeed.Proofs.Feed.Delivery
import DiagnosticFeed.Proofs.Log.Answers
import DiagnosticFeed.Proofs.Log.Written

/-!
# The final state of a log always appears

However the waits of a log fall, the last publication that is shown carries the
messages for the store that the log's mutations make of the empty one. At the
end of a log a publication is either pending, and then the flush makes it, or
it is not, and then the last one made was already of this store.
-/

namespace DiagnosticFeed

namespace Log

open Feed (Op LastPublication)

/-- The messages for the store after the mutations of a log. -/
def finalMessages (settings : Settings) (lines : List Line) : List Message :=
  settings.messages (Store.ofHistory (mutations lines)).issues

/-- What a log without invalid lines does to its feed, up to the flush. -/
def flushedOps (lines : List Line) : List (Op Unit) :=
  [.attach ()] ++ (events lines).flatMap Event.ops ++ [.flush]

/-- The sink is told last what the store holds at the end. -/
theorem publications_flushedOps (settings : Settings) (delay : Nat) (lines : List Line) :
    ∃ shown, Sink.publications ((Feed.withSettings settings delay).run (flushedOps lines)).2 =
      shown ++ [finalMessages settings lines] := by
  have idle : ((Feed.withSettings settings delay).run (flushedOps lines)).1.timer.isPending =
      false := by
    rw [flushedOps, Feed.run_concat]
    exact Timer.isPending_cancel _
  have attached : ((Feed.withSettings settings delay).run (flushedOps lines)).1.outlet.sink =
      some () := by
    rw [flushedOps, Feed.run_concat]
    exact (sink_settings_run_logOps _ (events lines)).1
  have noChange : ∀ op ∈ flushedOps lines, op.configures = false := by
    intro op h
    rw [flushedOps, List.append_assoc, List.singleton_append, List.mem_cons, List.mem_append,
      List.mem_singleton] at h
    rcases h with rfl | h | rfl
    · rfl
    · exact not_configures_of_mem_flatMap_ops h
    · rfl
  have store : ((Feed.withSettings settings delay).run (flushedOps lines)).1.store =
      Store.ofHistory (mutations lines) := by
    have history : (flushedOps lines).filterMap Op.mutation? = mutations lines := by
      rw [flushedOps, List.filterMap_append, List.filterMap_append,
        filterMap_mutation?_flatMap_ops]
      exact List.append_nil _
    rw [Feed.store_run, history]
    rfl
  obtain ⟨p⟩ := Feed.exists_lastPublication rfl (Timer.ordered_idleAt 0 delay) idle attached
  exact ⟨_, by rw [p.publications_run, p.settings_feed noChange, store]; rfl⟩

/-- A log without invalid lines is played to its end, and the publications that
are shown are numbered and end with the messages for the final state. -/
theorem numbered?_entries_ofLog (settings : Settings) (delay : Nat) {log : String}
    (valid : .invalid ∉ lines log) :
    (Transcript.ofLog settings delay log).stoppedAt = none ∧
      ∃ shown, (Transcript.ofLog settings delay log).entries.filterMap Entry.numbered? =
          (shown ++ [finalMessages settings (lines log)]).zipIdx 1 ∧
        (Transcript.ofLog settings delay log).publications = shown.length + 1 := by
  obtain ⟨shown, told⟩ := publications_flushedOps settings delay (lines log)
  have all := (Player.shows_played settings delay (events (lines log))).finish
  have shownAll := all.messages
  rw [Feed.run_concat, Sink.publications_append, Feed.publications_step rfl, List.append_nil]
    at shownAll
  rw [Transcript.ofLog_of_valid settings delay valid]
  refine ⟨rfl, shown, ?_, ?_⟩
  · rw [Player.transcript, all.numbered, shownAll, logOps, ← flushedOps, told]
  · rw [Player.transcript, all.count, shownAll, logOps, ← flushedOps, told, List.length_append,
      List.length_singleton]

namespace Transcript

def lastMessages? (t : Transcript) : Option (List Message) :=
  (t.entries.filterMap Entry.messages?).getLast?

/-- A transcript of a log that was played to its end and has shown some messages
in its last publication, in either format. -/
structure EndsWith (t : Transcript) (messages : List Message) : Prop where
  not_stopped : t.stoppedAt = none
  publications_pos : 1 ≤ t.publications
  lastMessages?_eq : t.lastMessages? = some messages
  /-- One line of JSON is the object of the publication, and those behind it are
  the objects of answers. -/
  json : ∃ before line after,
    t.rendered .json = String.join ((before ++ line :: after).map (· ++ "\n")) ∧
      (∀ text ∈ before ++ line :: after, '\n' ∉ text.toList) ∧
        Json.parse? line = some (Entry.publication t.publications messages).written ∧
          ∀ text ∈ after, ∃ e : Entry, e.isAnswer = true ∧ Json.parse? text = some e.written
  /-- One block of the text is that of the publication, and those behind it are
  the blocks of answers. -/
  text : ∃ before block after, t.rendered .text = String.join (before ++ block :: after) ∧
    (Entry.publication t.publications messages).Prints block ∧
      ∀ text ∈ after, ∃ e : Entry, e.isAnswer = true ∧ e.Prints text

theorem endsWith_of_entries {t : Transcript} {before after : List Entry}
    {messages : List Message} (finished : t.stoppedAt = none) (pos : 1 ≤ t.publications)
    (entries : t.entries = before ++ .publication t.publications messages :: after)
    (answers : ∀ e ∈ after, e.isAnswer = true) : t.EndsWith messages where
  not_stopped := finished
  publications_pos := pos
  lastMessages?_eq := by
    have noMessages : after.filterMap Entry.messages? = [] := by
      refine List.filterMap_eq_nil_iff.2 fun e he => ?_
      cases e with
      | publication number messages => cases answers _ he
      | _ => rfl
    have lastOnly : (Entry.publication t.publications messages :: after).filterMap
        Entry.messages? = [messages] := by
      rw [List.filterMap_cons, noMessages]
      rfl
    rw [lastMessages?, entries, List.filterMap_append, lastOnly, List.getLast?_concat]
  json := by
    refine ⟨before.map Entry.line, _, after.map Entry.line, ?_, ?_, Entry.parse?_line _, ?_⟩
    · rw [rendered_json, entries, List.map_append (f := Entry.line), List.map_cons]
    · rw [← List.map_cons, ← List.map_append]
      exact List.forall_mem_map.2 fun e _ => e.newline_notMem_line
    · exact List.forall_mem_map.2 fun e he => ⟨e, answers e he, e.parse?_line⟩
  text := by
    refine ⟨before.map Entry.text, _, after.map Entry.text, ?_, Entry.prints_text _, ?_⟩
    · rw [rendered_text, entries, List.map_append, List.map_cons]
    · exact List.forall_mem_map.2 fun e he => ⟨e, answers e he, e.prints_text⟩

theorem endsWith_of_numbered? {t : Transcript} {shown : List (List Message)}
    {messages : List Message} (finished : t.stoppedAt = none)
    (numbered : t.entries.filterMap Entry.numbered? = (shown ++ [messages]).zipIdx 1)
    (count : t.publications = shown.length + 1) : t.EndsWith messages := by
  have last : (shown ++ [messages]).zipIdx 1 =
      shown.zipIdx 1 ++ [(messages, t.publications)] := by
    rw [List.zipIdx_append, count, Nat.add_comm]
    rfl
  rw [last] at numbered
  obtain ⟨front, back, split, -, lastOne⟩ := List.filterMap_eq_append_iff.1 numbered
  obtain ⟨before, e, after, rfl, -, found, nothing⟩ := List.filterMap_eq_cons_iff.1 lastOne
  obtain rfl : e = .publication t.publications messages := by
    cases e <;> simp_all [Entry.numbered?]
  have entries : t.entries =
      (front ++ before) ++ .publication t.publications messages :: after := by
    rw [split, List.append_assoc]
  refine endsWith_of_entries finished ?_ entries fun e he => ?_
  · rw [count]
    exact Nat.le_add_left 1 _
  · have unnumbered : e.numbered? = none := List.filterMap_eq_nil_iff.1 nothing e he
    cases e with
    | publication number messages => cases unnumbered
    | _ => rfl

/-- Every log without invalid lines shows its final state in its last
publication, and nothing but the mutations of the log bears on that. -/
theorem endsWith_finalMessages (settings : Settings) {log : String}
    (valid : .invalid ∉ lines log) :
    (∀ delay, (ofLog settings delay log).EndsWith (finalMessages settings (lines log))) ∧
      ∀ {log' : String}, .invalid ∉ lines log' →
        mutations (lines log') = mutations (lines log) → ∀ delay delay',
          (ofLog settings delay' log').lastMessages? =
            (ofLog settings delay log).lastMessages? := by
  have ends : ∀ {log : String}, .invalid ∉ lines log → ∀ delay,
      (ofLog settings delay log).EndsWith (finalMessages settings (lines log)) := by
    intro log valid delay
    obtain ⟨finished, shown, numbered, count⟩ := numbered?_entries_ofLog settings delay valid
    exact endsWith_of_numbered? finished numbered count
  refine ⟨ends valid, fun valid' same delay delay' => ?_⟩
  rw [(ends valid' delay').lastMessages?_eq, (ends valid delay).lastMessages?_eq, finalMessages,
    same, finalMessages]

/-- A log that leaves time for a publication between its mutations. -/
def unhurried : String :=
  "[\"set\",\"t\",\"a.ts\",[[\"error\",1,\"x\",null,null]],null]\n[\"wait\",250]\n" ++
    "// a remark\n\n[\"clear\",\"b\",null]\n[\"query\",\"a.ts\",null,null]\n[\"wait\",300]\n"

/-- The same mutations without any waits. -/
def hurried : String :=
  "[\"set\",\"t\",\"a.ts\",[[\"error\",1,\"x\",null,null]],null]\n[\"clear\",\"b\",null]"

theorem endsWith_finalMessages_unhurried :
    .invalid ∉ lines unhurried ∧ .invalid ∉ lines hurried ∧
      mutations (lines hurried) = mutations (lines unhurried) ∧
        (∀ delay, (ofLog .standard delay unhurried).EndsWith
          (finalMessages .standard (lines unhurried))) ∧
          ∀ delay delay', (ofLog .standard delay' hurried).lastMessages? =
            (ofLog .standard delay unhurried).lastMessages? := by
  have read : lines unhurried =
      [.event (.report ⟨"t"⟩ "a.ts" ⟨none, [⟨.error, .number 1, "x", none, none, false, none⟩]⟩),
        .event (.wait 250), .skipped, .skipped, .event (.clear ⟨some "b", none⟩),
        .event (.query "a.ts" none none), .event (.wait 300)] := by
    decide +kernel
  have read' : lines hurried =
      [.event (.report ⟨"t"⟩ "a.ts" ⟨none, [⟨.error, .number 1, "x", none, none, false, none⟩]⟩),
        .event (.clear ⟨some "b", none⟩)] := by
    decide +kernel
  have valid : .invalid ∉ lines unhurried := by simp [read]
  have valid' : .invalid ∉ lines hurried := by simp [read']
  have same : mutations (lines hurried) = mutations (lines unhurried) := by rw [read, read']; rfl
  obtain ⟨ends, agree⟩ := endsWith_finalMessages .standard valid
  exact ⟨valid, valid', same, ends, agree valid' same⟩

end Transcript

end Log

end DiagnosticFeed
