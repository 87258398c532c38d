import DiagnosticFeed.Proofs.Feed.Run
import Mathlib.Tactic.Tauto

/-!
# Nothing is lost between the store and the sink

If no publication is pending and a sink is attached, then the last thing that
the sink was told to publish are the messages for the store as it is now. This
holds after every run: a run to such a state has a `LastPublication`, and
nothing behind that has changed the store or the sink.
-/

namespace DiagnosticFeed

namespace Feed

variable {σ : Type}

/-- How a run of a feed has brought the store as it is at its end to a sink: the
run up to the sink's last attachment, what comes between this and the
publication, the operation that publishes, and what comes after it. -/
structure LastPublication (f : Feed σ) (ops : List (Op σ)) (sink : σ) where
  earlier : List (Op σ)
  between : List (Op σ)
  op : Op σ
  later : List (Op σ)
  ops_eq : ops = earlier ++ .attach sink :: (between ++ op :: later)
  stays_attached : ∀ o ∈ between ++ op :: later, o.rewires = false
  calls_eq :
    ((f.run (earlier ++ .attach sink :: between)).1.step op).calls =
      [(sink, .publish ((f.run (earlier ++ .attach sink :: between)).1.settings.messages
        (f.run ops).1.store.issues))]
  later_not_triggers : ∀ o ∈ later, o.triggers = false
  later_publications :
    Sink.publications
      (((f.run (earlier ++ .attach sink :: between)).1.step op).feed.run later).2 = []

namespace LastPublication

variable {f : Feed σ} {ops : List (Op σ)} {sink : σ}

def feed (p : LastPublication f ops sink) : Feed σ :=
  (f.run (p.earlier ++ .attach sink :: p.between)).1

/-- The calls of the whole run, with those of the publication set apart. -/
theorem calls_run (p : LastPublication f ops sink) :
    (f.run ops).2 =
      (f.run (p.earlier ++ .attach sink :: p.between)).2 ++
        (sink, .publish (p.feed.settings.messages (f.run ops).1.store.issues)) ::
          ((p.feed.step p.op).feed.run p.later).2 := by
  have split : ops = (p.earlier ++ .attach sink :: p.between) ++ p.op :: p.later := by
    simpa using p.ops_eq
  conv_lhs => rw [split]
  rw [run_append, run_cons, p.calls_eq]
  rfl

theorem publications_run (p : LastPublication f ops sink) :
    Sink.publications (f.run ops).2 =
      Sink.publications (f.run (p.earlier ++ .attach sink :: p.between)).2 ++
        [p.feed.settings.messages (f.run ops).1.store.issues] := by
  have last : Sink.publications ((sink, .publish (p.feed.settings.messages
      (f.run ops).1.store.issues)) :: ((p.feed.step p.op).feed.run p.later).2) =
        p.feed.settings.messages (f.run ops).1.store.issues ::
          Sink.publications ((p.feed.step p.op).feed.run p.later).2 := rfl
  have nothingLater : Sink.publications ((p.feed.step p.op).feed.run p.later).2 = [] :=
    p.later_publications
  rw [p.calls_run, Sink.publications_append, last, nothingLater]

theorem settings_feed (p : LastPublication f ops sink)
    (noChange : ∀ o ∈ ops, o.configures = false) : p.feed.settings = f.settings := by
  refine settings_run f fun o ho => noChange o ?_
  rw [p.ops_eq]
  simp only [List.mem_append, List.mem_cons] at ho ⊢
  tauto

/-- Unless the settings have changed or the sink has been cleared since, a sink
that keeps what it was told holds what a publication would tell it now. -/
theorem current_eq_messages {f : Feed Nat} {ops : List (Op Nat)} {sink : Nat}
    (p : LastPublication f ops sink) (sameSettings : p.feed.settings = (f.run ops).1.settings)
    (noClear : .clearSink ∉ p.later) {sinks : List Sink} {m₀ : Sink.Memory}
    (kept : sinks[sink]? = some (.memory m₀)) :
    ∃ m, (Sink.receiveAll sinks (f.run ops).2)[sink]? = some (.memory m) ∧
      m.current = (f.run ops).1.messages := by
  have nothingLater : ((p.feed.step p.op).feed.run p.later).2 = [] := by
    refine calls_run_eq_nil p.later_publications noClear fun o ho => ?_
    exact p.stays_attached o (List.mem_append_right _ (List.mem_cons_of_mem _ ho))
  rw [p.calls_run, nothingLater, Sink.getElem?_receiveAll, kept, Option.map_some,
    Sink.foldl_receive_memory]
  refine ⟨_, rfl, ?_⟩
  rw [Sink.callsTo_append, messages, ← sameSettings]
  have toSink : ∀ messages, Sink.callsTo sink [(sink, .publish messages)] =
      [Sink.Call.publish messages] := by simp [Sink.callsTo]
  rw [toSink]
  exact Sink.current_receive_publish _ _ m₀

end LastPublication

/-- A run from a feed without a sink to one with a sink and nothing pending has
published last what is in the store at its end. -/
theorem exists_lastPublication {f : Feed σ} (vacant : f.outlet.sink = none)
    (ordered : f.timer.Ordered) {ops : List (Op σ)} {sink : σ}
    (idle : (f.run ops).1.timer.isPending = false)
    (attached : (f.run ops).1.outlet.sink = some sink) :
    Nonempty (LastPublication f ops sink) := by
  obtain ⟨earlier, rest, rfl, kept⟩ := exists_attach vacant attached
  have toRest : ∀ more, f.run (earlier ++ .attach sink :: more) =
      f.run ((earlier ++ [.attach sink]) ++ more) := by simp
  have ordered' := ordered_timer_run ordered (earlier ++ [.attach sink])
  have pending : (f.run (earlier ++ [.attach sink])).1.timer.isPending = true := by
    rw [run_concat, isPending_timer_step (ordered_timer_run ordered earlier)]
    rfl
  rw [toRest, run_append] at idle
  obtain ⟨between, op, later, rfl, ran, noTrigger, noPublication⟩ :=
    exists_runsIn ordered' pending idle
  have atOp : (f.run (earlier ++ .attach sink :: between)).1 =
      ((f.run (earlier ++ [.attach sink])).1.run between).1 := by
    rw [toRest, run_append]
  rw [← atOp] at ran noPublication
  have attachedThen : (f.run (earlier ++ .attach sink :: between)).1.outlet.sink = some sink := by
    rw [atOp, sink_run _ fun o ho => kept o (List.mem_append_left _ ho), run_concat]
    rfl
  have storeNow : (f.run (earlier ++ .attach sink :: (between ++ op :: later))).1.store =
      (f.run (earlier ++ .attach sink :: between)).1.store := by
    rw [← store_run_of_runsIn ran noTrigger, List.append_assoc, List.cons_append]
  exact ⟨{
    earlier, between, op, later
    ops_eq := rfl
    stays_attached := kept
    calls_eq := by rw [storeNow, calls_step_of_runsIn ran attachedThen]
    later_not_triggers := noTrigger
    later_publications := noPublication }⟩

/-- Whenever nothing is pending and a sink is attached, the sink has been told
what is in the store; and a sink that keeps what it was told shows what a
snapshot shows, unless it was cleared or the settings were changed. -/
theorem published_of_idle (settings : Settings) (now delay : Nat) {f : Feed Nat}
    (start : Feed.start? (some now) settings delay = .ok f) {ops : List (Op Nat)} {sink : Nat}
    (idle : (f.run ops).1.timer.isPending = false)
    (attached : (f.run ops).1.outlet.sink = some sink) :
    ∃ p : LastPublication f ops sink,
      p.feed.settings = (f.run ops).1.settings → .clearSink ∉ p.later →
        ∀ (sinks : List Sink) (m₀ : Sink.Memory), sinks[sink]? = some (.memory m₀) →
          ∃ m, (Sink.receiveAll sinks (f.run ops).2)[sink]? = some (.memory m) ∧
            ((f.run ops).1.step .snapshot).answer = .messages m.current := by
  obtain rfl := Except.ok.inj start
  obtain ⟨p⟩ := exists_lastPublication rfl (Timer.ordered_idleAt now delay) idle attached
  refine ⟨p, fun sameSettings noClear sinks m₀ kept => ?_⟩
  obtain ⟨m, found, current⟩ := p.current_eq_messages sameSettings noClear kept
  exact ⟨m, found, by rw [current]; rfl⟩

/-- A sink is attached between two reports, and the time that passes is too
short for a publication once and long enough the second time. -/
def burst : List (Op Nat) :=
  [.mutate (.report .semantic "/p/a.ts" ⟨none, [⟨.error, .number 1005, "expected a brace",
      some ⟨2, 1⟩, some ⟨2, 2⟩, false, none⟩]⟩),
    .attach 0, .advance 50, .mutate (.report .syntactic "/p/b.ts" ⟨none, []⟩), .advance 99,
    .snapshot, .advance 1, .mutate (.clear ⟨none, none⟩), .issuesAt "/p/a.ts" ⟨1, 0⟩]

theorem published_of_idle_burst :
    ((withSettings .standard 100).run burst).1.timer.isPending = false ∧
      ((withSettings .standard 100).run burst).1.outlet.sink = some 0 ∧
        Nonempty (LastPublication (withSettings .standard 100) burst 0) ∧
          ∃ m, (Sink.receiveAll [.memory .fresh]
              ((withSettings .standard 100).run burst).2)[0]? = some (.memory m) ∧
            (((withSettings .standard 100).run burst).1.step .snapshot).answer =
              .messages m.current := by
  have idle : ((withSettings .standard 100).run burst).1.timer.isPending = false := by decide
  have attached : ((withSettings .standard 100).run burst).1.outlet.sink = some 0 := by decide
  obtain ⟨p, shown⟩ :=
    published_of_idle .standard 0 100 (f := withSettings .standard 100) rfl idle attached
  have noChange : ∀ o ∈ burst, o.configures = false := by decide
  have sameSettings : p.feed.settings = ((withSettings .standard 100).run burst).1.settings := by
    rw [settings_run _ noChange, p.settings_feed noChange]
  have noClear : .clearSink ∉ p.later := by
    intro h
    have mem : .clearSink ∈ burst := by
      rw [p.ops_eq]
      simp [h]
    simp [burst] at mem
  exact ⟨idle, attached, ⟨p⟩, shown sameSettings noClear [.memory .fresh] .fresh rfl⟩

end Feed

end DiagnosticFeed
