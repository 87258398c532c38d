import DiagnosticFeed.Proofs.Feed.Step
import DiagnosticFeed.Proofs.Sink.Calls
import Mathlib.Data.List.Induction

/-!
# What a run does to the parts of a feed

The equations of one operation, carried along a run. The store after a run is
the history of its mutations; an attached sink has an operation that attached
it; and a publication that was pending and is not any more has an operation
that made it (`exists_runsIn`).
-/

namespace DiagnosticFeed

namespace Feed

variable {σ : Type}

theorem run_concat (f : Feed σ) (ops : List (Op σ)) (op : Op σ) :
    f.run (ops ++ [op]) =
      (((f.run ops).1.step op).feed, (f.run ops).2 ++ ((f.run ops).1.step op).calls) := by
  simp [run_append, run_cons]

theorem store_run (f : Feed σ) (ops : List (Op σ)) :
    (f.run ops).1.store = (ops.filterMap Op.mutation?).foldl Store.apply f.store := by
  induction ops generalizing f with
  | nil => rfl
  | cons op rest ih =>
      rw [run_cons, ih, store_step]
      cases found : op.mutation? <;> simp [found]

theorem settings_run (f : Feed σ) {ops : List (Op σ)}
    (h : ∀ op ∈ ops, op.configures = false) :
    (f.run ops).1.settings = f.settings := by
  induction ops generalizing f with
  | nil => rfl
  | cons op rest ih =>
      rw [run_cons, ih _ fun o ho => h o (List.mem_cons_of_mem _ ho)]
      exact settings_step f (h op List.mem_cons_self)

theorem sink_run (f : Feed σ) {ops : List (Op σ)} (h : ∀ op ∈ ops, op.rewires = false) :
    (f.run ops).1.outlet.sink = f.outlet.sink := by
  induction ops generalizing f with
  | nil => rfl
  | cons op rest ih =>
      rw [run_cons, ih _ fun o ho => h o (List.mem_cons_of_mem _ ho)]
      exact sink_step f (h op List.mem_cons_self)

theorem ordered_timer_run {f : Feed σ} (h : f.timer.Ordered) (ops : List (Op σ)) :
    (f.run ops).1.timer.Ordered := by
  induction ops generalizing f with
  | nil => exact h
  | cons op rest ih =>
      rw [run_cons]
      exact ih (ordered_timer_step h op)

/-- Operations that schedule nothing leave the store as it is. -/
theorem store_run_of_not_triggers (f : Feed σ) {ops : List (Op σ)}
    (h : ∀ op ∈ ops, op.triggers = false) : (f.run ops).1.store = f.store := by
  induction ops generalizing f with
  | nil => rfl
  | cons op rest ih =>
      rw [run_cons, ih _ fun o ho => h o (List.mem_cons_of_mem _ ho), store_step]
      have quiet := h op List.mem_cons_self
      cases op with
      | mutate m =>
          have void : m.isVoid = true := by simpa [Op.triggers] using quiet
          exact Store.apply_of_isVoid f.store void
      | _ => rfl

/-- A publication and what schedules nothing after it leave the store as it was
published. -/
theorem store_run_of_runsIn {f : Feed σ} {before later : List (Op σ)} {op : Op σ}
    (ran : (f.run before).1.runsIn op = true) (quiet : ∀ o ∈ later, o.triggers = false) :
    (f.run (before ++ op :: later)).1.store = (f.run before).1.store := by
  rw [run_append, run_cons, store_run_of_not_triggers _ quiet, store_step_of_runsIn ran]

/-- A sink that is attached has been attached by an operation, and by none
after it has the outlet been changed. -/
theorem exists_attach {f : Feed σ} (vacant : f.outlet.sink = none) {ops : List (Op σ)}
    {sink : σ} (attached : (f.run ops).1.outlet.sink = some sink) :
    ∃ earlier later, ops = earlier ++ .attach sink :: later ∧
      ∀ op ∈ later, op.rewires = false := by
  induction ops using List.reverseRecOn with
  | nil =>
      rw [run_nil, vacant] at attached
      cases attached
  | append_singleton ops op ih =>
      rw [run_concat] at attached
      by_cases h : op.rewires = false
      · rw [sink_step _ h] at attached
        obtain ⟨earlier, later, rfl, kept⟩ := ih attached
        refine ⟨earlier, later ++ [op], by simp, ?_⟩
        intro o ho
        rcases List.mem_append.1 ho with ho | ho
        · exact kept o ho
        · rw [List.mem_singleton.1 ho]
          exact h
      · cases op with
        | attach other =>
            have same : other = sink := by simpa [step, attach, schedule, Outlet.attach] using attached
            exact ⟨ops, [], by rw [same], by simp⟩
        | dispose => simp [step, dispose, Outlet.vacant] at attached
        | _ => exact absurd rfl h

/-- An operation in which the timer's action does not run publishes nothing. -/
theorem publications_step {f : Feed σ} {op : Op σ} (h : f.runsIn op = false) :
    Sink.publications (f.step op).calls = [] := by
  cases op with
  | clearSink =>
      cases sink : f.outlet.sink <;>
        simp [step, Outlet.tell, sink, Sink.publications, Sink.Call.published?]
  | dispose =>
      cases sink : f.outlet.sink <;>
        simp [step, Outlet.dispose, Outlet.tell, sink, Sink.publications, Sink.Call.published?]
  | _ =>
      rw [calls_step f (by simp) (by simp), h]
      rfl

/-- Operations that publish nothing tell the sinks nothing, unless they clear
or release one. -/
theorem calls_run_eq_nil {f : Feed σ} {ops : List (Op σ)}
    (silent : Sink.publications (f.run ops).2 = []) (noClear : .clearSink ∉ ops)
    (kept : ∀ op ∈ ops, op.rewires = false) : (f.run ops).2 = [] := by
  induction ops generalizing f with
  | nil => rfl
  | cons op rest ih =>
      rw [run_cons, Sink.publications_append] at silent
      obtain ⟨silentNow, silentThen⟩ := List.append_eq_nil_iff.1 silent
      rw [List.mem_cons, not_or] at noClear
      have then' := ih silentThen noClear.2 fun o ho => kept o (List.mem_cons_of_mem _ ho)
      have notDispose : op ≠ .dispose := by
        rintro rfl
        cases kept _ List.mem_cons_self
      have calls := calls_step f (Ne.symm noClear.1) notDispose
      have now' : (f.step op).calls = [] := by
        cases ran : f.runsIn op with
        | false => rw [calls, ran]; rfl
        | true =>
            cases attached : f.outlet.sink with
            | none => rw [calls, ran]; simp [publishIf, Outlet.publish, attached]
            | some sink =>
                rw [calls_step_of_runsIn ran attached] at silentNow
                cases silentNow
      rw [run_cons, now', then']
      rfl

/-- A publication that was pending and is not any more has been made by an
operation, and nothing after the last such one schedules or makes another. -/
theorem exists_runsIn {f : Feed σ} (ordered : f.timer.Ordered)
    (pending : f.timer.isPending = true) {ops : List (Op σ)}
    (idle : (f.run ops).1.timer.isPending = false) :
    ∃ between op later, ops = between ++ op :: later ∧
      (f.run between).1.runsIn op = true ∧ (∀ o ∈ later, o.triggers = false) ∧
      Sink.publications (((f.run between).1.step op).feed.run later).2 = [] := by
  induction ops using List.reverseRecOn with
  | nil =>
      rw [run_nil, pending] at idle
      cases idle
  | append_singleton ops op ih =>
      rw [run_concat, isPending_timer_step (ordered_timer_run ordered ops)] at idle
      obtain ⟨quiet, settled⟩ := Bool.or_eq_false_iff.1 idle
      by_cases ran : (f.run ops).1.runsIn op = true
      · exact ⟨ops, op, [], rfl, ran, by simp, rfl⟩
      · have notRan : (f.run ops).1.runsIn op = false := Bool.eq_false_iff.2 ran
        have before : (f.run ops).1.timer.isPending = false := by simpa [notRan] using settled
        obtain ⟨between, last, later, rfl, hlast, noTrigger, noPublication⟩ := ih before
        refine ⟨between, last, later ++ [op], by simp, hlast, ?_, ?_⟩
        · intro o ho
          rcases List.mem_append.1 ho with ho | ho
          · exact noTrigger o ho
          · rw [List.mem_singleton.1 ho]
            exact quiet
        · rw [run_append, run_cons] at notRan
          rw [run_concat, Sink.publications_append, noPublication, publications_step notRan]
          rfl

end Feed

end DiagnosticFeed
