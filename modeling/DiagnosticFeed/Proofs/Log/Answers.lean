import DiagnosticFeed.Proofs.Log.Playing

/-!
# What a log shows after each event

After every event the player has shown all that its sink was told up to then,
so a publication never appears behind an answer to a later question. The
answers come in the order of the questions, each from the store that the
mutations before the question have made (`answers`).
-/

namespace DiagnosticFeed

namespace Log

open Feed (Op)

namespace Event

def isQuery : Event → Bool
  | query .. => true
  | _ => false

def isTriggered : Event → Bool
  | triggered _ => true
  | _ => false

def answer? (s : Store) : Event → Option Entry
  | query file point asked => some (.found file (Player.find s file point asked))
  | triggered trigger => some (.triggered trigger (s.triggeredBy trigger))
  | _ => none

end Event

/-- The answers to the questions among some events, starting from a store. -/
def answers (s : Store) : List Event → List Entry
  | [] => []
  | e :: rest => (e.answer? s).toList ++ answers (e.mutation?.elim s s.apply) rest

theorem answers_append (s : Store) (before after : List Event) :
    answers s (before ++ after) =
      answers s before ++
        answers ((before.filterMap Event.mutation?).foldl Store.apply s) after := by
  induction before generalizing s with
  | nil => rfl
  | cons e rest ih =>
      rw [List.cons_append, answers, answers, ih, List.append_assoc]
      cases found : e.mutation? <;> simp [found]

/-- Every question is answered once. -/
theorem length_answers (s : Store) (events : List Event) :
    (answers s events).length = events.countP Event.isQuery + events.countP Event.isTriggered := by
  induction events generalizing s with
  | nil => rfl
  | cons e rest ih =>
      rw [answers, List.length_append, ih, List.countP_cons, List.countP_cons]
      cases e <;> simp [Event.answer?, Event.isQuery, Event.isTriggered] <;> omega

def Entry.isAnswer : Entry → Bool
  | publication .. => false
  | _ => true

theorem length_entries (entries : List Entry) : entries.length =
    (entries.filterMap Entry.messages?).length + (entries.filter Entry.isAnswer).length := by
  induction entries with
  | nil => rfl
  | cons entry rest ih =>
      rw [List.length_cons, ih]
      cases entry with
      | publication number messages => exact (Nat.succ_add _ _).symm
      | _ => rfl

/-- What a log with some events does to its feed before it ends. -/
def logOps (events : List Event) : List (Op Unit) := [.attach ()] ++ events.flatMap Event.ops

/-- The sink stays attached while events are played, and the settings are
kept. -/
theorem sink_settings_run_logOps (f : Feed Unit) (events : List Event) :
    (f.run (logOps events)).1.outlet.sink = some () ∧
      (f.run (logOps events)).1.settings = f.settings := by
  rw [logOps, Feed.run_append]
  exact ⟨Feed.sink_run _ fun _ => not_rewires_of_mem_flatMap_ops,
    Feed.settings_run _ fun _ => not_configures_of_mem_flatMap_ops⟩

namespace Player

variable {p : Player} {f : Feed Unit} {ops : List (Op Unit)} {events : List Event}

/-- The player has played some events and with that done some operations to a
feed. It has shown all that its sink was told, and the answers. -/
structure Shows (p : Player) (f : Feed Unit) (ops : List (Op Unit)) (events : List Event) :
    Prop extends p.Follows f ops where
  mutated : ops.filterMap Op.mutation? = events.filterMap Event.mutation?
  drained : p.waiting = []
  answered : p.entries.filter Entry.isAnswer = answers f.store events
  counted : p.events = events.length

theorem exists_entries_foldl_note (calls : List Sink.Call) (p : Player) :
    ∃ shown, (calls.foldl note p).entries = p.entries ++ shown ∧
      shown.filter Entry.isAnswer = [] := by
  induction calls generalizing p with
  | nil => exact ⟨[], (List.append_nil _).symm, rfl⟩
  | cons call rest ih =>
      obtain ⟨shown, eq, noAnswer⟩ := ih (p.note call)
      rw [List.foldl_cons, eq]
      cases call with
      | publish messages => exact ⟨_ :: shown, List.append_assoc .., noAnswer⟩
      | _ => exact ⟨shown, rfl, noAnswer⟩

theorem events_foldl_note (calls : List Sink.Call) (p : Player) :
    (calls.foldl note p).events = p.events := by
  induction calls generalizing p with
  | nil => rfl
  | cons call rest ih =>
      rw [List.foldl_cons, ih]
      cases call <;> rfl

theorem filter_isAnswer_drain (p : Player) :
    p.drain.entries.filter Entry.isAnswer = p.entries.filter Entry.isAnswer := by
  obtain ⟨shown, eq, noAnswer⟩ := exists_entries_foldl_note p.waiting { p with waiting := [] }
  rw [drain, eq, List.filter_append, noAnswer, List.append_nil]

theorem prefix_entries_drain (p : Player) : p.entries <+: p.drain.entries := by
  obtain ⟨shown, eq, -⟩ := exists_entries_foldl_note p.waiting { p with waiting := [] }
  exact ⟨shown, eq.symm⟩

theorem events_drain (p : Player) : p.drain.events = p.events := events_foldl_note _ _

/-- What has been shown stays. -/
theorem prefix_entries_play (p : Player) (e : Event) : p.entries <+: (p.play e).entries := by
  have answered : ∀ entry,
      p.entries <+: ((drain { p with events := p.events + 1 }).answer entry).entries :=
    fun entry => (prefix_entries_drain { p with events := p.events + 1 }).trans ⟨[entry], rfl⟩
  cases e with
  | report tag file batch => exact List.prefix_rfl
  | clear selection => exact List.prefix_rfl
  | wait ms => exact prefix_entries_drain (operate { p with events := p.events + 1 } _)
  | query file point asked => exact answered _
  | triggered trigger => exact answered _

theorem prefix_entries_foldl_play (p : Player) (events : List Event) :
    p.entries <+: (events.foldl play p).entries := by
  induction events generalizing p with
  | nil => exact List.prefix_rfl
  | cons e rest ih => exact (prefix_entries_play p e).trans (ih (p.play e))

theorem prefix_entries_finish (p : Player) : p.entries <+: p.finish.entries :=
  (prefix_entries_drain (p.operate .flush)).trans
    (prefix_entries_drain ((p.operate .flush).drain.operate .dispose))

theorem shows_start (settings : Settings) (delay : Nat) :
    (start settings delay).Shows (.withSettings settings delay) [.attach ()] [] :=
  ⟨follows_start settings delay, rfl, rfl, rfl, rfl⟩

namespace Shows

theorem store_feed (h : p.Shows f ops events) :
    p.feed.store = (events.filterMap Event.mutation?).foldl Store.apply f.store := by
  rw [h.feed, Feed.store_run, h.mutated]

theorem play (h : p.Shows f ops events) (e : Event) :
    (p.play e).Shows f (ops ++ e.ops) (events ++ [e]) where
  toFollows := h.toFollows.play e
  mutated := by
    rw [List.filterMap_append, h.mutated, List.filterMap_append, Event.filterMap_mutation?_ops]
    cases found : e.mutation? <;> simp [found]
  drained := by
    cases e with
    | report tag file batch => exact (List.append_nil _).trans h.drained
    | clear selection => exact (List.append_nil _).trans h.drained
    | wait ms => exact waiting_drain _
    | query file point asked => exact waiting_drain _
    | triggered trigger => exact waiting_drain _
  answered := by
    have answers' := h.answered
    rw [answers_append, ← h.store_feed, ← answers']
    cases e with
    | report tag file batch => exact (List.append_nil _).symm
    | clear selection => exact (List.append_nil _).symm
    | wait ms => exact (filter_isAnswer_drain _).trans (List.append_nil _).symm
    | query file point asked =>
        rw [Player.play, Player.answer, List.filter_append, filter_isAnswer_drain]
        rfl
    | triggered trigger =>
        rw [Player.play, Player.answer, List.filter_append, filter_isAnswer_drain]
        rfl
  counted := by
    rw [List.length_append, ← h.counted]
    cases e with
    | report tag file batch => rfl
    | clear selection => rfl
    | wait ms => exact events_drain _
    | query file point asked => exact events_drain _
    | triggered trigger => exact events_drain _

theorem foldl_play (h : p.Shows f ops events) (more : List Event) :
    (more.foldl Player.play p).Shows f (ops ++ more.flatMap Event.ops) (events ++ more) := by
  induction more generalizing p ops events with
  | nil => simpa using h
  | cons e rest ih => simpa using ih (h.play e)

theorem finish (h : p.Shows f ops events) :
    p.finish.Shows f (ops ++ [.flush] ++ [.dispose]) events where
  toFollows := h.toFollows.finish
  mutated := by simp [h.mutated, Op.mutation?]
  drained := waiting_drain _
  answered := by
    rw [Player.finish, filter_isAnswer_drain]
    exact (filter_isAnswer_drain _).trans h.answered
  counted := by
    rw [Player.finish, events_drain]
    exact (events_drain _).trans h.counted

/-- All that the sink was told is there, and in its order. -/
theorem messages (h : p.Shows f ops events) :
    p.entries.filterMap Entry.messages? = Sink.publications (f.run ops).2 := by
  rw [← h.told, h.drained, List.filterMap_nil, List.append_nil]

end Shows

def played (settings : Settings) (delay : Nat) (events : List Event) : Player :=
  events.foldl play (start settings delay)

theorem shows_played (settings : Settings) (delay : Nat) (events : List Event) :
    (played settings delay events).Shows (.withSettings settings delay) (logOps events) events :=
  (shows_start settings delay).foldl_play events

/-- What has been shown of some events stays at the front. -/
theorem exists_entries_finish_played (settings : Settings) (delay : Nat)
    (before after : List Event) :
    ∃ rest, (played settings delay (before ++ after)).finish.entries =
      (played settings delay before).entries ++ rest := by
  obtain ⟨rest, eq⟩ := (prefix_entries_foldl_play (played settings delay before) after).trans
    (prefix_entries_finish _)
  refine ⟨rest, ?_⟩
  rw [eq, played, played, List.foldl_append]

end Player

/-- A log without invalid lines shows what its events have shown, and what the
end shows. -/
theorem Transcript.ofLog_of_valid (settings : Settings) (delay : Nat) {log : String}
    (valid : .invalid ∉ lines log) :
    ofLog settings delay log =
      (Player.played settings delay (Log.events (lines log))).finish.transcript none :=
  Player.playLines_of_valid _ 1 valid

end Log

end DiagnosticFeed
