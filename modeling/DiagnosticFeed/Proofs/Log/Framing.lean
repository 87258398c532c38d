import DiagnosticFeed.Proofs.Log.Answers
import DiagnosticFeed.Proofs.Log.Written

/-!
# One object on a line

In JSON, a transcript has one line for each of its entries, and the line holds
one object and no line feed but the one that ends it. The entries are all that
the sink was told, numbered from one, and the answers to all questions, each
behind what the sink was told by then.
-/

namespace DiagnosticFeed

namespace Log

def told (settings : Settings) (delay : Nat) (events : List Event) : List (List Message) :=
  Sink.publications ((Feed.withSettings settings delay).run
    (logOps events ++ [.flush] ++ [.dispose])).2

namespace Transcript

/-- The transcript of events that were played to their end, with all that the
sink was told and all answers, one on a line. -/
structure Framed (t : Transcript) (settings : Settings) (delay : Nat) (events : List Event) :
    Prop where
  not_stopped : t.stoppedAt = none
  /-- In JSON an entry is an object on a line of its own. -/
  json : ∃ texts : List String, t.rendered .json = String.join (texts.map (· ++ "\n")) ∧
    texts.length = t.publications + events.countP Event.isQuery + events.countP Event.isTriggered ∧
      List.Forall₂ (fun text e => '\n' ∉ text.toList ∧ Json.parse? text = some e.written)
        texts t.entries
  text : ∃ blocks, t.rendered .text = String.join blocks ∧
    List.Forall₂ (fun block e => e.Prints block) blocks t.entries
  numbered : t.entries.filterMap Entry.numbered? = (told settings delay events).zipIdx 1
  answered : t.entries.filter Entry.isAnswer = answers .empty events
  /-- Wherever the events are cut in two, what the sink was told by then comes
  before the answers to the questions behind the cut. -/
  cut : ∀ before after, events = before ++ after → ∃ first second, t.entries = first ++ second ∧
    first.filterMap Entry.messages? =
      Sink.publications ((Feed.withSettings settings delay).run (logOps before)).2 ∧
    first.filter Entry.isAnswer = answers .empty before ∧
    second.filter Entry.isAnswer =
      answers (Store.ofHistory (before.filterMap Event.mutation?)) after
  events_eq : t.events = events.length
  publications_eq : t.publications = (told settings delay events).length

/-- Each entry has a line of its own in JSON. -/
theorem forall₂_line (entries : List Entry) :
    List.Forall₂ (fun text e => '\n' ∉ text.toList ∧ Json.parse? text = some e.written)
      (entries.map Entry.line) entries := by
  rw [List.forall₂_map_left_iff, List.forall₂_same]
  exact fun e _ => ⟨e.newline_notMem_line, e.parse?_line⟩

/-- Each entry has a block of its own in the text. -/
theorem forall₂_text (entries : List Entry) :
    List.Forall₂ (fun block e => e.Prints block) (entries.map Entry.text) entries := by
  rw [List.forall₂_map_left_iff, List.forall₂_same]
  exact fun e _ => e.prints_text

/-- Every log without invalid lines gives a well framed transcript. -/
theorem framed_ofLog (settings : Settings) (delay : Nat) {log : String}
    (valid : .invalid ∉ lines log) :
    (ofLog settings delay log).Framed settings delay (Log.events (lines log)) := by
  rw [ofLog_of_valid settings delay valid]
  generalize Log.events (lines log) = events
  have all := (Player.shows_played settings delay events).finish
  have count : (Player.played settings delay events).finish.publications =
      (told settings delay events).length := by
    rw [all.count, all.messages, told]
  refine ⟨rfl, ⟨_, rendered_json _, ?_, forall₂_line _⟩, ⟨_, rendered_text _, forall₂_text _⟩,
    ?_, all.answered, ?_, all.counted, count⟩
  · rw [List.length_map, Player.transcript, length_entries, ← all.count, all.answered,
      length_answers, Nat.add_assoc]
  · exact all.numbered.trans (by rw [all.messages, told])
  · rintro before after rfl
    have part := Player.shows_played settings delay before
    obtain ⟨second, split⟩ := Player.exists_entries_finish_played settings delay before after
    have answered := all.answered
    rw [split, List.filter_append, part.answered, answers_append] at answered
    exact ⟨_, second, split, part.messages, part.answered, List.append_cancel_left answered⟩

/-- A log with line feeds in the names and texts. -/
def multiline : String :=
  "[\"set\",\"t\",\"a\\nb.ts\",[[\"error\",1,\"\\n\",null,null]],\"c\\n\"]\n[\"wait\",100]\n" ++
    "[\"query\",\"a\\nb.ts\",null,null]\n[\"triggered\",\"c\\n\"]\n"

theorem framed_ofLog_multiline : .invalid ∉ lines multiline ∧
    (ofLog .standard 100 multiline).Framed .standard 100 (Log.events (lines multiline)) := by
  have read : lines multiline =
      [.event (.report ⟨"t"⟩ "a\nb.ts"
          ⟨some "c\n", [⟨.error, .number 1, "\n", none, none, false, none⟩]⟩),
        .event (.wait 100), .event (.query "a\nb.ts" none none), .event (.triggered "c\n")] := by
    decide +kernel
  have valid : .invalid ∉ lines multiline := by simp [read]
  exact ⟨valid, framed_ofLog .standard 100 valid⟩

end Transcript

end Log

end DiagnosticFeed
