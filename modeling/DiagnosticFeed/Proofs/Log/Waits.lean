import DiagnosticFeed.Proofs.Log.Elapsing

/-!
# Waits in a log that make one

Some waits in a row show what one wait shows that is as long as all of them,
whatever stands behind them in the log. The only exception are waits without length
in a log that is played without a delay, where more triggers are left than one of
them gives turns to (`elapses_in_parts_iff`).
-/

namespace DiagnosticFeed

namespace Log

open Feed (Op)

def Transcript.ofLines (settings : Settings) (delay : Nat) (lines : List Line) : Transcript :=
  (Player.start settings delay).playLines 1 lines

def Line.wait (ms : UInt64) : Line := .event (.wait ms)

theorem events_map_wait (ws : List UInt64) : events (ws.map Line.wait) = ws.map Event.wait := by
  induction ws with
  | nil => rfl
  | cons w rest ih => exact congrArg (Event.wait w :: ·) ih

theorem invalid_notMem_map_wait (ws : List UInt64) : .invalid ∉ ws.map Line.wait := by
  simp [Line.wait]

theorem eq_replicate_of_sum_eq_zero {ws : List UInt64} (none : (ws.map UInt64.toNat).sum = 0) :
    ws = List.replicate ws.length 0 := by
  refine List.eq_replicate_of_mem fun w mem => ?_
  have zero := List.sum_eq_zero_iff_forall_eq_nat.1 none w.toNat (List.mem_map_of_mem mem)
  exact UInt64.toNat_inj.1 zero

namespace Player

variable {p : Player}

/-- What stands behind an invalid line is not looked at. -/
theorem playLines_append_of_invalid (p : Player) (number : Nat) {front : List Line}
    (bad : .invalid ∈ front) (rest : List Line) :
    p.playLines number (front ++ rest) = p.playLines number front := by
  induction front generalizing p number with
  | nil => cases bad
  | cons line front ih =>
      cases line with
      | skipped => exact ih p (number + 1) ((List.mem_cons.1 bad).resolve_left (by rintro ⟨⟩))
      | event e =>
          exact ih (p.play e) (number + 1) ((List.mem_cons.1 bad).resolve_left (by rintro ⟨⟩))
      | invalid => rfl

/-- Waits without length do no more than to give turns, as long as they do not
come to the last trigger, or if what is scheduled lies ahead. -/
theorem foldl_play_asleep (drained : p.waiting = []) (h : p.feed.timer.Punctual) {n : Nat}
    (asleep : 0 < p.feed.timer.delay ∨ n * Timer.turns < p.feed.timer.backlog) :
    (List.replicate n (Event.wait 0)).foldl play p =
      p.onFeed { p.feed with timer :=
        { p.feed.timer with backlog := p.feed.timer.backlog - n * Timer.turns } } (p.events + n) := by
  induction n generalizing p with
  | zero => simp [onFeed]
  | succ n ih =>
      rw [Nat.succ_mul] at asleep
      have first : p.play (.wait 0) = _ := play_wait_of_eq p (h.advance_zero_of_asleep (by omega))
      rw [publishIf_false drained] at first
      have later := ih (waiting_play_wait p 0) (by rw [first]; exact h.with_backlog _)
        (by rw [first]; simp only [onFeed]; omega)
      rw [List.replicate_succ, List.foldl_cons, later, first]
      simp only [onFeed, Nat.succ_mul, Nat.add_comm 1, Nat.add_assoc, Nat.sub_sub]
      simp only [Nat.add_comm]

/-- Waits in a row show what one wait shows, unless they have no length and the
delay neither, and one of them does not give turns to all triggers. -/
theorem alike_foldl_play_waits (drained : p.waiting = []) (h : p.feed.timer.Punctual)
    {ws : List UInt64} (some : ws ≠ []) {w : UInt64}
    (sum : (ws.map UInt64.toNat).sum = w.toNat)
    (plain : 0 < w.toNat ∨ 0 < p.feed.timer.delay ∨ p.feed.timer.backlog ≤ Timer.turns) :
    (p.play (.wait w)).Alike ((ws.map Event.wait).foldl play p) := by
  by_cases turn : 0 < w.toNat ∨ p.feed.timer.backlog ≤ Timer.turns
  · rw [foldl_play_waits drained h.coherent some sum turn]
    refine ⟨_, _, .refl ?_, rfl⟩
    rw [timer_play_wait]
    exact Timer.coherent_advance h.coherent _
  · have long : 0 < p.feed.timer.delay := by omega
    have none : w.toNat = 0 := by omega
    obtain rfl : w = 0 := UInt64.toNat_inj.1 none
    have first : p.play (.wait 0) = _ :=
      play_wait_of_eq p (h.advance_zero_of_asleep (Or.inl long))
    rw [eq_replicate_of_sum_eq_zero (sum.trans none), List.map_replicate,
      foldl_play_asleep drained h (Or.inl long), first, publishIf_false drained]
    have coherent := (h.with_backlog (p.feed.timer.backlog - Timer.turns)).coherent
    exact ⟨_, _, ⟨_, .of_ahead coherent long (h.ahead long) _, rfl⟩, rfl⟩

theorem entries_publishIf_true (drained : p.waiting = [])
    (attached : p.feed.outlet.sink = some ()) : (p.publishIf true).entries =
      p.entries ++ [.publication (p.publications + 1) p.feed.messages] := by
  simp [publishIf, Feed.publishIf, Outlet.publish, attached, drained, drain, note]

/-- Without a delay, waits without length publish what is pending if one of them
gives all triggers their turns. -/
theorem entries_foldl_play_waits (drained : p.waiting = []) (h : p.feed.timer.Punctual)
    (attached : p.feed.outlet.sink = some ()) (none : p.feed.timer.delay = 0)
    (pending : p.feed.timer.isPending = true) (few : p.feed.timer.backlog ≤ Timer.turns)
    {n : Nat} (pos : 0 < n) : ((List.replicate n (Event.wait 0)).foldl play p).entries =
      p.entries ++ [.publication (p.publications + 1) p.feed.messages] := by
  have sum : ((List.replicate n 0).map UInt64.toNat).sum = (0 : UInt64).toNat := by simp
  have nonempty : List.replicate n (0 : UInt64) ≠ [] := by
    rw [Ne, List.replicate_eq_nil_iff]
    exact Nat.ne_of_gt pos
  have ran := h.advance_zero
  rw [if_pos ⟨none, pending, few⟩] at ran
  rw [← List.map_replicate, foldl_play_waits drained h.coherent nonempty sum (Or.inr few),
    play_wait_of_eq _ ran]
  exact entries_publishIf_true drained attached

theorem entries_play_triggered (drained : p.waiting = []) (trigger : String) :
    (p.play (.triggered trigger)).entries =
      p.entries ++ [.triggered trigger (p.feed.store.triggeredBy trigger)] := by
  have looked := drain_of_drained (p := { p with events := p.events + 1 }) drained
  rw [play, looked]
  rfl

/-- A publication can be told to be in front of an answer. -/
theorem entries_playLines_triggered_ne {q : Player} (drained : p.waiting = []) {number : Nat}
    {messages : List Message} (published : q.entries = p.entries ++ [.publication number messages])
    (n m : Nat) (trigger : String) : (q.playLines n [.event (.triggered trigger)]).entries ≠
      (p.playLines m [.event (.triggered trigger)]).entries := by
  intro same
  have first : q.entries <+: (q.playLines n [.event (.triggered trigger)]).entries :=
    (prefix_entries_play q _).trans (prefix_entries_finish _)
  have second : (p.play (.triggered trigger)).entries <+:
      (p.playLines m [.event (.triggered trigger)]).entries := prefix_entries_finish _
  rw [published, same] at first
  rw [entries_play_triggered drained] at second
  have both := List.prefix_of_prefix_length_le first second (by simp)
  cases List.append_cancel_left (both.eq_of_length (by simp))

/-- Where one wait without length does not give turns to all triggers and there is
no delay, some of them are more than one: if as many waits follow as it takes, there
is a publication behind the ones and none behind the others. -/
theorem exists_foldl_play_waits_apart (drained : p.waiting = []) (h : p.feed.timer.Punctual)
    (attached : p.feed.outlet.sink = some ()) (none : p.feed.timer.delay = 0)
    (pending : p.feed.timer.isPending = true) (many : Timer.turns < p.feed.timer.backlog)
    {n : Nat} (several : 1 < n) :
    ∃ later, ((List.replicate (1 + later) (Event.wait 0)).foldl play p).entries = p.entries ∧
      ((List.replicate (1 + later) (Event.wait 0)).foldl play p).waiting = [] ∧
        ((List.replicate (n + later) (Event.wait 0)).foldl play p).entries =
          p.entries ++ [.publication (p.publications + 1) p.feed.messages] := by
  -- The last wait that comes before the turn of the last trigger, counted from one.
  obtain ⟨last, one_le, before, behind⟩ : ∃ last, 1 ≤ last ∧
      last * Timer.turns < p.feed.timer.backlog ∧
        p.feed.timer.backlog - last * Timer.turns ≤ Timer.turns := by
    refine ⟨(p.feed.timer.backlog - 1) / Timer.turns, ?_, ?_, ?_⟩ <;>
      simp only [Timer.turns] at many ⊢ <;> omega
  have asleep := foldl_play_asleep drained h (Or.inr before)
  refine ⟨last - 1, ?_⟩
  rw [show 1 + (last - 1) = last by omega, show n + (last - 1) = last + (n - 1) by omega,
    ← List.replicate_append_replicate, List.foldl_append, asleep]
  refine ⟨rfl, drained, ?_⟩
  apply entries_foldl_play_waits
  case drained => exact drained
  case h => exact h.with_backlog _
  case attached => exact attached
  case none => exact none
  case pending => exact pending
  case few => exact behind
  case pos => omega

/-! ## The player behind the lines of a log -/

section

variable (settings : Settings) (delay : Nat) (events : List Event)

theorem timer_played : (played settings delay events).feed.timer =
    (Timer.idleAt 0 delay).run ((logOps events).filterMap Op.timerStep?) := by
  rw [(shows_played settings delay events).feed, Feed.timer_run]
  rfl

theorem punctual_timer_played : (played settings delay events).feed.timer.Punctual := by
  rw [timer_played]
  exact (Timer.punctual_idleAt 0 delay).run _

theorem delay_timer_played : (played settings delay events).feed.timer.delay = delay := by
  rw [timer_played]
  exact Timer.delay_run (Timer.coherent_idleAt 0 delay) _

/-- In a log no run is given up and none is made early. -/
theorem owing_timer_played : (played settings delay events).feed.timer.Owing := by
  have noFlush : ∀ op ∈ logOps events, op ≠ .flush := by
    intro op mem
    rcases List.mem_append.1 mem with mem | mem
    · rw [List.mem_singleton.1 mem]
      rintro ⟨⟩
    · obtain ⟨e, -, mem⟩ := List.mem_flatMap.1 mem
      rintro rfl
      cases e <;> simp [Event.ops] at mem
  rw [timer_played]
  apply Timer.owing_run (Timer.coherent_idleAt 0 delay) (Timer.owing_idleAt 0 delay)
  case noCancel =>
    intro mem
    obtain ⟨op, -, eq⟩ := List.mem_filterMap.1 mem
    exact op.timerStep?_ne_cancel eq
  case noFlush =>
    intro mem
    obtain ⟨op, mem, eq⟩ := List.mem_filterMap.1 mem
    exact noFlush op mem (op.eq_flush_of_timerStep? eq)

theorem sink_played : (played settings delay events).feed.outlet.sink = some () := by
  rw [(shows_played settings delay events).feed]
  exact (sink_settings_run_logOps _ events).1

end

end Player

/-- How many triggers have not had their turns when some lines have been played. -/
def backlogAfter (settings : Settings) (delay : Nat) (lines : List Line) : Nat :=
  (Player.played settings delay (events lines)).feed.timer.backlog

namespace Transcript

variable {settings : Settings} {delay : Nat} {before : List Line} {ws : List UInt64} {w : UInt64}

theorem SameShown.refl (t : Transcript) : t.SameShown t := ⟨rfl, rfl, rfl⟩

theorem ofLines_waits (valid : .invalid ∉ before) (ws : List UInt64) (after : List Line) :
    ofLines settings delay (before ++ (ws.map Line.wait ++ after)) =
      ((ws.map Event.wait).foldl Player.play
        (Player.played settings delay (Log.events before))).playLines
          (1 + before.length + (ws.map Line.wait).length) after := by
  rw [ofLines, Player.playLines_append _ _ valid,
    Player.playLines_append _ _ (invalid_notMem_map_wait ws), events_map_wait]
  rfl

theorem sameShown_waits (some : ws ≠ []) (sum : (ws.map UInt64.toNat).sum = w.toNat)
    (plain : .invalid ∈ before ∨ ws.length = 1 ∨ 0 < w ∨ 0 < delay ∨
      backlogAfter settings delay before ≤ Timer.turns) (after : List Line) :
    (ofLines settings delay (before ++ (ws.map Line.wait ++ after))).SameShown
      (ofLines settings delay (before ++ ([w].map Line.wait ++ after))) := by
  by_cases valid : .invalid ∈ before
  · rw [ofLines, ofLines, Player.playLines_append_of_invalid _ _ valid,
      Player.playLines_append_of_invalid _ _ valid]
    exact .refl _
  · rw [or_iff_right valid] at plain
    rw [ofLines_waits valid, ofLines_waits valid]
    rcases plain with one | plain
    · obtain ⟨a, rfl⟩ := List.length_eq_one_iff.1 one
      obtain rfl : a = w := UInt64.toNat_inj.1 (by simpa using sum)
      exact .refl _
    · rw [UInt64.lt_iff_toNat_lt] at plain
      refine (Player.alike_foldl_play_waits ?_ ?_ some sum ?_).sameShown after _ _
      · exact (Player.shows_played settings delay (Log.events before)).drained
      · exact Player.punctual_timer_played settings delay _
      · rwa [Player.delay_timer_played]

/-- What is shown can differ in a publication that comes before an answer. -/
theorem exists_not_sameShown_waits (valid : .invalid ∉ before) (several : ws.length ≠ 1)
    (some : ws ≠ []) (sum : (ws.map UInt64.toNat).sum = 0)
    (many : Timer.turns < backlogAfter settings 0 before) :
    ∃ after, ¬(ofLines settings 0 (before ++ (ws.map Line.wait ++ after))).SameShown
      (ofLines settings 0 (before ++ ([0].map Line.wait ++ after))) := by
  have shows := Player.shows_played settings 0 (Log.events before)
  have pending : (Player.played settings 0 (Log.events before)).feed.timer.isPending = true :=
    Player.owing_timer_played settings 0 _ (Nat.zero_lt_of_lt many)
  have length := List.length_pos_iff.2 some
  obtain ⟨later, same, drained, published⟩ := Player.exists_foldl_play_waits_apart shows.drained
    (Player.punctual_timer_played settings 0 _) (Player.sink_played settings 0 _)
    (Player.delay_timer_played settings 0 _) pending many (n := ws.length) (by omega)
  let question : List Line := [.event (.triggered "")]
  have joined : ∀ us : List UInt64, us.map Line.wait ++
      ((List.replicate later 0).map Line.wait ++ question) =
        (us ++ List.replicate later 0).map Line.wait ++ question := by simp
  refine ⟨(List.replicate later 0).map Line.wait ++ question, fun shown => ?_⟩
  have entries := shown.entries
  rw [joined, joined, ofLines_waits valid, ofLines_waits valid, eq_replicate_of_sum_eq_zero sum,
    ← List.replicate_one, List.replicate_append_replicate,
    List.replicate_append_replicate] at entries
  simp only [List.map_replicate] at entries
  rw [← same] at published
  exact Player.entries_playLines_triggered_ne drained published _ _ _ entries

end Transcript

/-- Time that passes in two parts leaves a feed that looks as it does when the time
passes in one, and has told the sinks the same, unless both parts have no length and
the timer is crowded. Waits in a row in a log show what one wait shows that is as
long as all of them, whatever stands behind them, unless all of it has no length, the
delay neither, and one wait does not give turns to all triggers. -/
theorem elapses_in_parts_iff {σ : Type} {f : Feed σ} (made : f.Made) (ops : List (Op σ))
    (a b : Nat) (settings : Settings) (delay : Nat) (before : List Line) {ws : List UInt64}
    (some : ws ≠ []) {w : UInt64} (sum : (ws.map UInt64.toNat).sum = w.toNat) :
    ((0 < a + b →
        f.run (ops ++ [.advance a, .advance b]) = f.run (ops ++ [.advance (a + b)])) ∧
      ((f.run (ops ++ [.advance a, .advance b])).1.Resembles
            (f.run (ops ++ [.advance (a + b)])).1 ∧
          (f.run (ops ++ [.advance a, .advance b])).2 = (f.run (ops ++ [.advance (a + b)])).2 ↔
        ¬(a + b = 0 ∧ (f.run ops).1.timer.Crowded))) ∧
      ((∀ after,
          (Transcript.ofLines settings delay (before ++ (ws.map Line.wait ++ after))).SameShown
            (Transcript.ofLines settings delay (before ++ Line.wait w :: after))) ↔
        .invalid ∈ before ∨ ws.length = 1 ∨ 0 < w ∨ 0 < delay ∨
          backlogAfter settings delay before ≤ Timer.turns) := by
  constructor
  · have punctual := made.punctual_timer_run ops
    have apart := Feed.resembles_iff_not_crowded punctual a b
    simp only [Feed.run_append, List.append_cancel_left_eq]
    refine ⟨fun long => ?_, apart⟩
    rw [Feed.run_advance_advance punctual.coherent (Or.inl long)]
  · refine ⟨fun same => ?_, Transcript.sameShown_waits some sum⟩
    by_contra apart
    simp only [not_or, Nat.not_le] at apart
    obtain ⟨valid, several, none, noDelay, many⟩ := apart
    obtain rfl : w = 0 := UInt64.le_zero_iff.1 (UInt64.not_lt.1 none)
    obtain rfl : delay = 0 := Nat.eq_zero_of_not_pos noDelay
    obtain ⟨after, differ⟩ := Transcript.exists_not_sameShown_waits valid several some sum many
    exact differ (same after)

/-- A report whose publication is made at the very end of a wait. -/
def onTime : List (Op Nat) :=
  [.attach 0, .advance 30, .mutate (.report ⟨"t"⟩ "a.ts" ⟨none, []⟩)]

theorem elapses_in_parts_iff_punctual :
    ((Feed.plain : Feed Nat).Made ∧ 0 < 60 + 40 ∧
      Feed.plain.run (onTime ++ [.advance 60, .advance 40]) =
        Feed.plain.run (onTime ++ [.advance (60 + 40)]) ∧
      (Feed.plain.run (onTime ++ [.advance 60])).1.timer.isPending = true ∧
      (Feed.plain.run (onTime ++ [.advance (60 + 40)])).1.timer.isPending = false) ∧
    ([60, 0, 40] : List UInt64) ≠ [] ∧
      (([60, 0, 40] : List UInt64).map UInt64.toNat).sum = (100 : UInt64).toNat ∧
      ∀ after, (Transcript.ofLines .standard 100
          ([.skipped] ++ ([60, 0, 40].map Line.wait ++ after))).SameShown
        (Transcript.ofLines .standard 100 ([.skipped] ++ Line.wait 100 :: after)) := by
  have some : ([60, 0, 40] : List UInt64) ≠ [] := by decide
  have sum : (([60, 0, 40] : List UInt64).map UInt64.toNat).sum = (100 : UInt64).toNat := by decide
  obtain ⟨⟨same, -⟩, logs⟩ :=
    elapses_in_parts_iff .plain onTime 60 40 .standard 100 [.skipped] some sum
  refine ⟨⟨.plain, by decide, same (by decide), ?_, ?_⟩, some, sum, logs.2 (by decide)⟩
  · decide +kernel
  · decide +kernel

/-- So many reports that a wait without length does not come to the last of them. -/
def crowd : List Line := List.replicate 70 (.event (.report ⟨"t"⟩ "a.ts" ⟨none, []⟩))

/-- A question behind one wait without length is answered before the publication is
made, and behind two of them it is made first. -/
theorem crowd_elapses_apart :
    (Transcript.ofLines .standard 0
        (crowd ++ [.wait 0, .event (.query "a.ts" none none)])).entries =
      [.found "a.ts" [], .publication 1 []] ∧
    (Transcript.ofLines .standard 0
        (crowd ++ [.wait 0, .wait 0, .event (.query "a.ts" none none)])).entries =
      [.publication 1 [], .found "a.ts" []] ∧
    ((Feed.withSettings .standard 0).run
        (logOps (events crowd) ++ [.advance (0 + 0)])).1.timer.isPending = true ∧
    ((Feed.withSettings .standard 0).run
        (logOps (events crowd) ++ [.advance 0, .advance 0])).1.timer.isPending = false := by
  decide +kernel

end Log

end DiagnosticFeed
