import DiagnosticFeed.Proofs.Feed.Looking

/-!
# What an attached sink is told

A sink is told something only while it is attached. It is told of publications
and of clearings until it is released, and then, last of all, that it is cleared
and released; when another sink takes its place it is told nothing. Afterwards it
hears no more, whatever was pending, until it is attached again. One equation for
an operation (`callsTo_step`) says all this, and a stay of a sink
(`exists_served`) is what it comes to along a run.
-/

namespace DiagnosticFeed

namespace Feed

variable {σ : Type}

namespace Op

def holder (before : Option σ) : Op σ → Option σ
  | attach sink => some sink
  | dispose => none
  | _ => before

theorem holder_ne {before : Option σ} {op : Op σ} {sink : σ} (other : op ≠ .attach sink)
    (h : before ≠ some sink ∨ op.rewires = true) : op.holder before ≠ some sink := by
  cases op with
  | attach sink' =>
      intro same
      exact other (congrArg attach (Option.some.inj same))
  | dispose => rintro ⟨⟩
  | _ => exact h.resolve_right Bool.false_ne_true

def attaches [DecidableEq σ] (sink : σ) : Op σ → Bool
  | attach other => other = sink
  | _ => false

end Op

/-- The sink that operations leave attached, the first of them done without any:
the sink attached last, unless one has been released since. -/
def holder (ops : List (Op σ)) : Option σ := ops.foldl Op.holder none

def told (f : Feed σ) : Op σ → List Sink.Call
  | .clearSink => [.clear]
  | .dispose => [.clear, .dispose]
  | .flush => if f.timer.isPending then [.publish f.messages] else []
  | .advance ms => if (f.timer.advance ms).2 then [.publish f.messages] else []
  | _ => []

/-- What a sink that is attached is told last, by what is done from then on: it is
cleared and released, if it is released before another one is attached. -/
def farewell (later : List (Op σ)) : List Sink.Call :=
  match later.find? Op.rewires with
  | some .dispose => [.clear, .dispose]
  | _ => []

/-! ## One operation -/

theorem sink_step_eq_holder (f : Feed σ) (op : Op σ) :
    (f.step op).feed.outlet.sink = op.holder f.outlet.sink := by
  cases op with
  | attach sink => rfl
  | dispose => rfl
  | _ => exact sink_step f rfl

theorem Made.sink_eq {f : Feed σ} (h : f.Made) : f.outlet.sink = none := by
  cases h with
  | plain => rfl
  | @started clock settings delay _ start =>
      cases clock with
      | none => cases start
      | some now => exact congrArg (Outlet.sink ∘ Feed.outlet) (Except.ok.inj start).symm

theorem sink_run_eq_holder {f : Feed σ} (made : f.Made) (ops : List (Op σ)) :
    (f.run ops).1.outlet.sink = holder ops := by
  induction ops using List.reverseRecOn with
  | nil => exact made.sink_eq
  | append_singleton ops op ih =>
      rw [run_concat, sink_step_eq_holder, ih, holder, holder, List.foldl_append]
      rfl

/-- All calls of an operation go to the attached sink. -/
theorem calls_step_eq_told (f : Feed σ) (op : Op σ) :
    (f.step op).calls =
      f.outlet.sink.elim [] fun sink => (f.told op).map fun call => (sink, call) := by
  cases attached : f.outlet.sink with
  | none =>
      cases op with
      | clearSink => simp [step, Outlet.tell, attached]
      | dispose => simp [step, Outlet.dispose, Outlet.tell, attached]
      | flush => simp [step, flush, publishIf, Outlet.publish, attached]
      | advance ms => simp [step, advance, publishIf, Outlet.publish, attached]
      | _ => rfl
  | some sink =>
      cases op with
      | clearSink => simp [step, Outlet.tell, attached, told]
      | dispose => simp [step, Outlet.dispose, Outlet.tell, attached, told]
      | flush =>
          cases pending : f.timer.isPending <;>
            simp [step, flush, Timer.flush, publishIf, Outlet.publish, attached, told, pending,
              messages]
      | advance ms =>
          cases ran : (f.timer.advance ms).2 <;>
            simp [step, advance, publishIf, Outlet.publish, attached, told, ran, messages]
      | _ => rfl

theorem dispose_not_mem_told (f : Feed σ) {op : Op σ} (h : op ≠ .dispose) :
    .dispose ∉ f.told op := by
  cases op with
  | dispose => exact absurd rfl h
  | flush => cases pending : f.timer.isPending <;> simp [told, pending]
  | advance ms => cases ran : (f.timer.advance ms).2 <;> simp [told, ran]
  | _ => simp [told]

section

variable [DecidableEq σ] {sink : σ}

theorem callsTo_step (f : Feed σ) (sink : σ) (op : Op σ) :
    Sink.callsTo sink (f.step op).calls = if f.outlet.sink = some sink then f.told op else [] := by
  rw [calls_step_eq_told]
  cases f.outlet.sink with
  | none => rfl
  | some other =>
      simp only [Option.elim_some, Sink.callsTo_map_mk, Option.some.injEq]

theorem callsTo_run_cons (f : Feed σ) (sink : σ) (op : Op σ) (rest : List (Op σ)) :
    Sink.callsTo sink (f.run (op :: rest)).2 =
      Sink.callsTo sink (f.step op).calls ++ Sink.callsTo sink ((f.step op).feed.run rest).2 := by
  rw [run_cons, Sink.callsTo_append]

/-! ## A run -/

/-- A sink that is not attached is told nothing until it is. -/
theorem callsTo_run_of_away {f : Feed σ} (away : f.outlet.sink ≠ some sink) {ops : List (Op σ)}
    (never : .attach sink ∉ ops) : Sink.callsTo sink (f.run ops).2 = [] := by
  induction ops generalizing f with
  | nil => rfl
  | cons op rest ih =>
      rw [List.mem_cons, not_or] at never
      have stillAway : (f.step op).feed.outlet.sink ≠ some sink := by
        rw [sink_step_eq_holder]
        exact Op.holder_ne (Ne.symm never.1) (Or.inl away)
      rw [callsTo_run_cons, callsTo_step, if_neg away, ih stillAway never.2]
      rfl

/-- From a moment on at which a sink is attached, it is told publications and
clearings, and its farewell. -/
theorem exists_served {f : Feed σ} (attached : f.outlet.sink = some sink) {later : List (Op σ)}
    (once : .attach sink ∉ later) :
    ∃ served, (∀ call ∈ served, call ≠ .dispose) ∧
      Sink.callsTo sink (f.run later).2 = served ++ farewell later := by
  induction later generalizing f with
  | nil => exact ⟨[], by simp, rfl⟩
  | cons op rest ih =>
      rw [List.mem_cons, not_or] at once
      rw [callsTo_run_cons, callsTo_step, if_pos attached]
      by_cases rewires : op.rewires = true
      · have away : (f.step op).feed.outlet.sink ≠ some sink := by
          rw [sink_step_eq_holder]
          exact Op.holder_ne (Ne.symm once.1) (Or.inr rewires)
        rw [callsTo_run_of_away away once.2, farewell, List.find?_cons_of_pos rewires]
        refine ⟨[], by simp, ?_⟩
        cases op with
        | attach other => rfl
        | dispose => rfl
        | _ => cases rewires
      · have kept := sink_step f (Bool.eq_false_iff.2 rewires)
        obtain ⟨served, noRelease, told⟩ := ih (kept.trans attached) once.2
        refine ⟨f.told op ++ served, ?_, ?_⟩
        · intro call mem
          rcases List.mem_append.1 mem with mem | mem
          · rintro rfl
            exact dispose_not_mem_told f (by rintro rfl; exact rewires rfl) mem
          · exact noRelease call mem
        · rw [told, farewell, farewell, List.find?_cons_of_neg rewires, List.append_assoc]

theorem count_dispose_callsTo_step_le (f : Feed σ) (sink : σ) (op : Op σ) :
    (Sink.callsTo sink (f.step op).calls).count .dispose +
        (if (f.step op).feed.outlet.sink = some sink then 1 else 0) ≤
      (if op.attaches sink then 1 else 0) + if f.outlet.sink = some sink then 1 else 0 := by
  by_cases rewires : op.rewires = true
  · rw [callsTo_step, sink_step_eq_holder]
    cases op with
    | attach other => by_cases same : other = sink <;> simp [Op.holder, Op.attaches, told, same]
    | dispose =>
        by_cases attached : f.outlet.sink = some sink <;>
          simp [Op.holder, Op.attaches, told, attached]
    | _ => cases rewires
  · have notDispose : op ≠ .dispose := by
      rintro rfl
      exact rewires rfl
    have unreleased := List.count_eq_zero.2 (dispose_not_mem_told f notDispose)
    rw [callsTo_step, sink_step f (Bool.eq_false_iff.2 rewires), apply_ite (List.count _),
      unreleased, List.count_nil, ite_self, Nat.zero_add]
    exact Nat.le_add_left _ _

/-- A sink is released at most once for each time that it is attached. -/
theorem count_dispose_callsTo_run_le (f : Feed σ) (sink : σ) (ops : List (Op σ)) :
    (Sink.callsTo sink (f.run ops).2).count .dispose ≤
      ops.countP (Op.attaches sink) + if f.outlet.sink = some sink then 1 else 0 := by
  induction ops generalizing f with
  | nil => exact Nat.zero_le _
  | cons op rest ih =>
      have now' := count_dispose_callsTo_step_le f sink op
      have later := ih (f.step op).feed
      rw [callsTo_run_cons, List.count_append, List.countP_cons]
      omega

/-- How the calls of all runs of a feed to a sink go with its attachments. -/
structure ServesAttached (f : Feed σ) (sink : σ) : Prop where
  /-- An operation tells a sink something only while it is attached; to attach
  another one in its place tells it nothing. -/
  step : ∀ before op, Sink.callsTo sink ((f.run before).1.step op).calls =
    if holder before = some sink then (f.run before).1.told op else []
  /-- While no sink is attached, none at all is told anything. -/
  vacant : ∀ before op, holder before = none → ((f.run before).1.step op).calls = []
  /-- A sink that is not attached any more is told nothing until it is again. -/
  away : ∀ before later, holder before ≠ some sink → .attach sink ∉ later →
    Sink.callsTo sink (f.run (before ++ later)).2 = Sink.callsTo sink (f.run before).2
  /-- From one attachment to the next a sink is told publications and clearings,
  and its farewell. -/
  stay : ∀ before later, .attach sink ∉ later → ∃ served, (∀ call ∈ served, call ≠ .dispose) ∧
    Sink.callsTo sink (f.run (before ++ .attach sink :: later)).2 =
      Sink.callsTo sink (f.run before).2 ++ served ++ farewell later
  /-- It is released at most once for each attachment. -/
  once : ∀ ops, (Sink.callsTo sink (f.run ops).2).count .dispose ≤ ops.countP (Op.attaches sink)

/-- Every feed serves every sink while it is attached, and releases it at most
once. -/
theorem servesAttached {f : Feed σ} (made : f.Made) (sink : σ) : f.ServesAttached sink where
  step before op := by rw [callsTo_step, sink_run_eq_holder made]
  vacant before op none' := by
    rw [calls_step_eq_told, sink_run_eq_holder made, none']
    rfl
  away before later notHeld never := by
    rw [← sink_run_eq_holder made] at notHeld
    have silent := callsTo_run_of_away notHeld never
    rw [run_append, Sink.callsTo_append, silent, List.append_nil]
  stay before later once := by
    have attached : ((f.run before).1.step (.attach sink)).feed.outlet.sink = some sink := rfl
    obtain ⟨served, noRelease, told⟩ := exists_served attached once
    refine ⟨served, noRelease, ?_⟩
    have attaching : Sink.callsTo sink ((f.run before).1.step (.attach sink)).calls = [] := rfl
    rw [run_append, Sink.callsTo_append, callsTo_run_cons, attaching, told, List.nil_append,
      List.append_assoc]
  once ops := by
    simpa [made.sink_eq] using count_dispose_callsTo_run_le f sink ops

end

/-- Two sinks take turns. The first one is attached, released while a publication
is pending, handed in again behind the second, and released once more. -/
def turns : List (Op Nat) :=
  [.attach 0, .advance 100, .clearSink, .mutate (.report .semantic "/p/a.ts" ⟨none, []⟩), .dispose,
    .advance 100, .clearSink, .dispose, .attach 1, .attach 0, .flush, .dispose, .flush]

theorem servesAttached_turns :
    (withSettings .standard 100 : Feed Nat).Made ∧
      (withSettings .standard 100 : Feed Nat).ServesAttached 0 ∧
        ((withSettings .standard 100).run (turns.take 5)).1.runsIn (.advance 100) = true ∧
          holder (turns.take 5) = none ∧
            Sink.callsTo 0 ((withSettings .standard 100).run turns).2 =
              [.publish [], .clear, .clear, .dispose, .publish [], .clear, .dispose] ∧
              Sink.callsTo 1 ((withSettings .standard 100).run turns).2 = [] := by
  have start : start? (some 0) .standard 100 = .ok (withSettings .standard 100 : Feed Nat) := rfl
  have made := Made.started start
  exact ⟨made, servesAttached made 0, by decide, rfl, by decide, by decide⟩

end Feed

end DiagnosticFeed
