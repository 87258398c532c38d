import DiagnosticFeed.Feed
import DiagnosticFeed.Proofs.Timer.Pending

/-!
# What an operation does to each part of a feed

An operation drives the timer by at most one step (`Op.timerStep?`), changes
the store by at most one mutation (`Op.mutation?`), and attaches or releases a
sink or leaves the outlet alone. One equation for each part says so; the calls
to sinks are those of a publication, unless the sink is cleared or released.
-/

namespace DiagnosticFeed

namespace Timer

def stepIf (t : Timer) : Option Step → Timer × Bool
  | none => (t, false)
  | some s => t.step s

end Timer

namespace Feed

variable {σ : Type}

namespace Op

def mutation? : Op σ → Option Mutation
  | mutate m => some m
  | _ => none

def timerStep? : Op σ → Option Timer.Step
  | mutate m => if m.isVoid then none else some .trigger
  | attach _ => some .trigger
  | flush => some .flush
  | advance ms => some (.advance ms)
  | _ => none

/-- Whether an operation schedules a publication: it changes the store by a
mutation that asks for something, or attaches a sink. -/
def triggers : Op σ → Bool
  | mutate m => !m.isVoid
  | attach _ => true
  | _ => false

def rewires : Op σ → Bool
  | attach _ => true
  | dispose => true
  | _ => false

def configures : Op σ → Bool
  | configure _ => true
  | _ => false

theorem triggers_eq (op : Op σ) : op.triggers = decide (op.timerStep? = some .trigger) := by
  cases op with
  | mutate m => cases void : m.isVoid <;> simp [triggers, timerStep?, void]
  | _ => simp [triggers, timerStep?]

theorem timerStep?_ne_cancel (op : Op σ) : op.timerStep? ≠ some .cancel := by
  cases op with
  | mutate m => cases void : m.isVoid <;> simp [timerStep?, void]
  | _ => simp [timerStep?]

end Op

def runsIn (f : Feed σ) (op : Op σ) : Bool := (f.timer.stepIf op.timerStep?).2

theorem store_step (f : Feed σ) (op : Op σ) :
    (f.step op).feed.store = op.mutation?.elim f.store f.store.apply := by
  cases op with
  | mutate m =>
      cases void : m.isVoid with
      | true => simp [step, mutate, void, Op.mutation?, Store.apply_of_isVoid f.store void]
      | false => simp [step, mutate, void, schedule, Op.mutation?]
  | configure change => by_cases h : f.adjustable <;> simp [step, configure, h, Op.mutation?]
  | _ => rfl

theorem timer_step (f : Feed σ) (op : Op σ) :
    (f.step op).feed.timer = (f.timer.stepIf op.timerStep?).1 := by
  cases op with
  | mutate m => cases void : m.isVoid <;> simp [step, mutate, void, Op.timerStep?] <;> rfl
  | configure change => by_cases h : f.adjustable <;> simp [step, configure, h] <;> rfl
  | _ => rfl

theorem settings_step (f : Feed σ) {op : Op σ} (h : op.configures = false) :
    (f.step op).feed.settings = f.settings := by
  cases op with
  | mutate m => cases void : m.isVoid <;> simp [step, mutate, void, schedule]
  | configure change => simp [Op.configures] at h
  | _ => rfl

theorem sink_step (f : Feed σ) {op : Op σ} (h : op.rewires = false) :
    (f.step op).feed.outlet.sink = f.outlet.sink := by
  cases op with
  | mutate m => cases void : m.isVoid <;> simp [step, mutate, void, schedule]
  | attach sink => simp [Op.rewires] at h
  | dispose => simp [Op.rewires] at h
  | configure change => by_cases h : f.adjustable <;> simp [step, configure, h]
  | _ => rfl

/-- The calls of an operation that neither clears nor releases the sink. -/
theorem calls_step (f : Feed σ) {op : Op σ} (hc : op ≠ .clearSink) (hd : op ≠ .dispose) :
    (f.step op).calls = f.publishIf (f.runsIn op) := by
  cases op with
  | mutate m => cases void : m.isVoid <;> simp [step, runsIn, Op.timerStep?, void] <;> rfl
  | clearSink => exact absurd rfl hc
  | dispose => exact absurd rfl hd
  | _ => rfl

/-- The timer's action runs only when time passes or in a flush. -/
theorem eq_flush_or_advance {f : Feed σ} {op : Op σ} (h : f.runsIn op = true) :
    op = .flush ∨ ∃ ms, op = .advance ms := by
  cases op with
  | flush => exact Or.inl rfl
  | advance ms => exact Or.inr ⟨ms, rfl⟩
  | mutate m =>
      cases void : m.isVoid <;>
        simp [runsIn, Op.timerStep?, void, Timer.stepIf, Timer.step] at h
  | _ => simp [runsIn, Op.timerStep?, Timer.stepIf, Timer.step] at h

theorem store_step_of_runsIn {f : Feed σ} {op : Op σ} (h : f.runsIn op = true) :
    (f.step op).feed.store = f.store := by
  rcases eq_flush_or_advance h with rfl | ⟨ms, rfl⟩ <;> rfl

/-- When the timer's action runs, the attached sink gets the messages for the
store. -/
theorem calls_step_of_runsIn {f : Feed σ} {op : Op σ} (h : f.runsIn op = true) {sink : σ}
    (attached : f.outlet.sink = some sink) :
    (f.step op).calls = [(sink, .publish (f.settings.messages f.store.issues))] := by
  have calls : (f.step op).calls = f.publishIf (f.runsIn op) := by
    rcases eq_flush_or_advance h with rfl | ⟨ms, rfl⟩ <;> rfl
  rw [calls, h]
  simp [publishIf, Outlet.publish, attached, messages]

theorem ordered_timer_step {f : Feed σ} (h : f.timer.Ordered) (op : Op σ) :
    (f.step op).feed.timer.Ordered := by
  rw [timer_step]
  cases op.timerStep? with
  | none => exact h
  | some s => exact Timer.ordered_step h s

/-- A publication is pending after an operation that schedules one, or if one
was pending before that has not been made. -/
theorem isPending_timer_step {f : Feed σ} (h : f.timer.Ordered) (op : Op σ) :
    (f.step op).feed.timer.isPending =
      (op.triggers || (f.timer.isPending && !f.runsIn op)) := by
  rw [timer_step, Op.triggers_eq, runsIn]
  have notCancel := op.timerStep?_ne_cancel
  cases found : op.timerStep? with
  | none => simp [Timer.stepIf]
  | some s =>
      rw [found] at notCancel
      have pending := Timer.isPending_step h (s := s) fun eq => notCancel (congrArg some eq)
      simpa [Timer.stepIf] using pending

end Feed

end DiagnosticFeed
