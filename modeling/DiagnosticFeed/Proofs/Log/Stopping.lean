import DiagnosticFeed.Proofs.Log.FinalState
import DiagnosticFeed.Proofs.Text.FirstLines

/-!
# A log that a line stops

A line that holds no event stops a log there. What has been shown by then is
what the lines in front of it show by themselves, up to the publication that
the end of a log makes of what is still pending.
-/

namespace DiagnosticFeed

namespace Log

namespace Player

/-- The end of a log shows a publication if one is pending, and nothing else. -/
theorem entries_finish {p : Player} (drained : p.waiting = [])
    (attached : p.feed.outlet.sink = some ()) :
    p.finish.entries = p.entries ++
      if p.feed.timer.isPending then [.publication (p.publications + 1) p.feed.messages]
      else [] := by
  cases pending : p.feed.timer.isPending <;>
    simp [finish, operate, drain, note, Feed.step, Feed.flush, Timer.flush, Feed.publishIf,
      Outlet.publish, Outlet.dispose, Outlet.tell, Feed.messages, drained, attached, pending]

end Player

def pendingAfter (settings : Settings) (delay : Nat) (events : List Event) : Bool :=
  ((Feed.withSettings settings delay).run (logOps events)).1.timer.isPending

theorem entries_finish_played (settings : Settings) (delay : Nat) (lines : List Line) :
    (Player.played settings delay (events lines)).finish.entries =
      (Player.played settings delay (events lines)).entries ++
        if pendingAfter settings delay (events lines) then
          [.publication ((Player.played settings delay (events lines)).publications + 1)
            (finalMessages settings lines)]
        else [] := by
  have part := Player.shows_played settings delay (events lines)
  obtain ⟨attached, kept⟩ :=
    sink_settings_run_logOps (.withSettings settings delay) (events lines)
  rw [← part.feed] at attached kept
  rw [Player.entries_finish part.drained attached, Feed.messages, kept, part.store_feed, part.feed]
  rfl

namespace Transcript

/-- A log that a line has stopped, next to the lines in front of that line as a
log of their own. The one shows what a player has shown by then, and the other
what it has shown when it has finished. -/
structure StopsBehind (settings : Settings) (delay : Nat) (log : String) (n : Nat)
    (head : String) : Prop where
  stopped : ofLog settings delay log =
    (Player.played settings delay (Log.events (lines head))).transcript (some (n + 1))
  finished : ofLog settings delay head =
    (Player.played settings delay (Log.events (lines head))).finish.transcript none
  entries : (ofLog settings delay head).entries = (ofLog settings delay log).entries ++
    if pendingAfter settings delay (Log.events (lines head)) then
      [.publication ((ofLog settings delay log).publications + 1)
        (finalMessages settings (lines head))]
    else []
  rendered : ∀ format, (ofLog settings delay head).rendered format =
    (ofLog settings delay log).rendered format ++
      if pendingAfter settings delay (Log.events (lines head)) then
        (Entry.publication ((ofLog settings delay log).publications + 1)
          (finalMessages settings (lines head))).rendered format
      else ""

theorem stopsBehind (settings : Settings) (delay : Nat) {log head : String} {n : Nat}
    (bad : (lines log)[n]? = some .invalid) (good : .invalid ∉ (lines log).take n)
    (same : lines head = (lines log).take n) : StopsBehind settings delay log n head := by
  have stopped : ofLog settings delay log =
      (Player.played settings delay (Log.events (lines head))).transcript (some (n + 1)) := by
    rw [ofLog, Player.playLines_of_invalid _ 1 bad good, same, Nat.add_comm, Player.played]
  have finished := ofLog_of_valid settings delay (same ▸ good)
  have entries : (ofLog settings delay head).entries = (ofLog settings delay log).entries ++
      if pendingAfter settings delay (Log.events (lines head)) then
        [.publication ((ofLog settings delay log).publications + 1)
          (finalMessages settings (lines head))]
      else [] := by
    simp only [finished, stopped, Player.transcript]
    exact entries_finish_played settings delay (lines head)
  refine ⟨stopped, finished, entries, fun format => ?_⟩
  rw [rendered, entries, List.map_append, String.join_append]
  split <;> simp [rendered]

/-- The first line that is invalid stops a log, and what has been shown by then
depends on the lines in front of it only. -/
theorem stoppedAt_ofLog (settings : Settings) (delay : Nat) {log : String} {n : Nat}
    (bad : (lines log)[n]? = some .invalid) (good : .invalid ∉ (lines log).take n) :
    (ofLog settings delay log).stoppedAt = some (n + 1) ∧
      (∃ rest, log = Text.firstLines n log ++ rest) ∧
        Text.lines (Text.firstLines n log) = (Text.lines log).take n ∧
          ∀ head, Text.lines head = (Text.lines log).take n →
            StopsBehind settings delay log n head := by
  obtain ⟨inside, -⟩ := List.getElem?_eq_some_iff.1 bad
  rw [lines, List.length_map] at inside
  refine ⟨?_, Text.firstLines_append n log, Text.lines_firstLines inside, fun head same => ?_⟩
  · rw [ofLog, Player.playLines_of_invalid _ 1 bad good, Nat.add_comm]
    rfl
  · refine stopsBehind settings delay bad good ?_
    rw [lines, same, List.map_take]
    rfl

/-- A log that stops while a publication is pending. -/
def interrupted : String :=
  "// a remark\n\n[\"clear\",\"b\",null]\n[\"wait\",100]\n[\"clear\",\"b\",null]\n" ++
    "[\"wait\"]\n[\"wait\",100]\n"

theorem stoppedAt_ofLog_interrupted :
    (lines interrupted)[5]? = some .invalid ∧ .invalid ∉ (lines interrupted).take 5 ∧
      pendingAfter .standard 100 (Log.events ((lines interrupted).take 5)) = true ∧
        (ofLog .standard 100 interrupted).stoppedAt = some 6 ∧
          StopsBehind .standard 100 interrupted 5 (Text.firstLines 5 interrupted) := by
  have read : lines interrupted =
      [.skipped, .skipped, .event (.clear ⟨some "b", none⟩), .event (.wait 100),
        .event (.clear ⟨some "b", none⟩), .invalid, .event (.wait 100)] := by
    decide +kernel
  have bad : (lines interrupted)[5]? = some .invalid := by rw [read]; rfl
  have good : .invalid ∉ (lines interrupted).take 5 := by simp [read]
  have pending : pendingAfter .standard 100 (Log.events ((lines interrupted).take 5)) = true := by
    rw [read]
    decide
  obtain ⟨stopped, -, first, behind⟩ := stoppedAt_ofLog .standard 100 bad good
  exact ⟨bad, good, pending, stopped, behind _ first⟩

end Transcript

end Log

end DiagnosticFeed
