import DiagnosticFeed.Proofs.Feed.Looking
import DiagnosticFeed.Proofs.Timer.Elapsing

/-!
# Time that passes for a feed in parts

The operations on a feed drive its timer by steps (`timer_run`), so what its timer
does in two waits and in one is what the feed does: the same publication is made
in the one case and in the other (`run_advance_advance`). Where it is not, the two
feeds can be told apart at once (`resembles_iff_not_crowded`).
-/

namespace DiagnosticFeed

namespace Feed

variable {σ : Type} {f g : Feed σ}

/-! ## The timer of a feed -/

theorem timer_run (f : Feed σ) (ops : List (Op σ)) :
    (f.run ops).1.timer = f.timer.run (ops.filterMap Op.timerStep?) := by
  induction ops generalizing f with
  | nil => rfl
  | cons op rest ih =>
      rw [run_cons, ih, timer_step]
      cases found : op.timerStep? <;> simp [found, Timer.stepIf, Timer.run_cons]

theorem Op.eq_flush_of_timerStep? (op : Op σ) (h : op.timerStep? = some .flush) :
    op = .flush := by
  cases op with
  | mutate m => cases void : m.isVoid <;> simp [timerStep?, void] at h
  | flush => rfl
  | _ => cases h

theorem Made.punctual_timer (h : f.Made) : f.timer.Punctual := by
  cases h with
  | plain => exact Timer.punctual_idleAt 0 standardDelay
  | @started clock settings delay _ start =>
      cases clock with
      | none => cases start
      | some now =>
          obtain rfl := Except.ok.inj start
          exact Timer.punctual_idleAt now delay

theorem Made.punctual_timer_run (h : f.Made) (ops : List (Op σ)) :
    (f.run ops).1.timer.Punctual := by
  rw [timer_run]
  exact h.punctual_timer.run _

/-! ## Two waits and one -/

theorem run_advance (f : Feed σ) (ms : Nat) : f.run [.advance ms] =
    ({ f with timer := (f.timer.advance ms).1 }, f.publishIf (f.timer.advance ms).2) :=
  congrArg (Prod.mk _) (List.append_nil _)

theorem run_advance_advance_eq (f : Feed σ) (a b : Nat) : f.run [.advance a, .advance b] =
    ({ f with timer := ((f.timer.advance a).1.advance b).1 },
      f.publishIf (f.timer.advance a).2 ++ f.publishIf ((f.timer.advance a).1.advance b).2) := by
  rw [run_cons, run_advance]
  rfl

theorem run_advance_advance (h : f.timer.Coherent) {a b : Nat}
    (turn : 0 < a + b ∨ f.timer.backlog ≤ Timer.turns) :
    f.run [.advance a, .advance b] = f.run [.advance (a + b)] := by
  rw [run_advance_advance_eq, run_advance]
  rcases Timer.advance_add_cases h turn with ⟨u, first, second⟩ | ⟨u, v, first, second, whole⟩
  · rw [first, second]
    rfl
  · rw [first, second, whole]
    exact congrArg (Prod.mk _) (List.append_nil _)

/-- What can be seen of a feed: the store and the settings, whether a publication
is pending and when it is due, and which sink is attached. -/
structure Resembles (f g : Feed σ) : Prop where
  store : f.store = g.store
  settings : f.settings = g.settings
  pending : f.timer.isPending = g.timer.isPending
  due : f.timer.task.map (·.due) = g.timer.task.map (·.due)
  sink : f.outlet.sink = g.outlet.sink

theorem Resembles.refl (f : Feed σ) : f.Resembles f := ⟨rfl, rfl, rfl, rfl, rfl⟩

/-- Two waits can be told from one only if the timer is crowded and they have no
length. -/
theorem resembles_iff_not_crowded (h : f.timer.Punctual) (a b : Nat) :
    ((f.run [.advance a, .advance b]).1.Resembles (f.run [.advance (a + b)]).1 ∧
        (f.run [.advance a, .advance b]).2 = (f.run [.advance (a + b)]).2) ↔
      ¬(a + b = 0 ∧ f.timer.Crowded) := by
  by_cases turn : 0 < a + b ∨ f.timer.backlog ≤ Timer.turns
  · rw [run_advance_advance h.coherent turn]
    refine iff_of_true ⟨.refl _, rfl⟩ ?_
    rintro ⟨none, -, -, many, -⟩
    omega
  · obtain ⟨rfl, rfl⟩ : a = 0 ∧ b = 0 := by omega
    have many : Timer.turns < f.timer.backlog := by omega
    rw [run_advance_advance_eq, run_advance]
    by_cases crowded : f.timer.Crowded
    · obtain ⟨u, v, first, pending, second, idle⟩ := h.advance_zero_of_crowded crowded
      rw [first, second]
      refine iff_of_false ?_ (not_not_intro ⟨rfl, crowded⟩)
      rintro ⟨resembles, -⟩
      cases idle.symm.trans (resembles.pending.trans pending)
    · obtain ⟨u, first, second⟩ := h.advance_zero_of_not_crowded many crowded
      rw [first, second]
      exact iff_of_true ⟨⟨rfl, rfl, rfl, rfl, rfl⟩, rfl⟩ (crowded ·.2)

/-! ## Feeds with timers that are alike -/

def Alike (f g : Feed σ) : Prop := ∃ timer, f.timer.Alike timer ∧ g = { f with timer }

namespace Alike

theorem refl (h : f.timer.Coherent) : f.Alike f := ⟨f.timer, .refl h, rfl⟩

theorem step (h : f.Alike g) (op : Op σ) :
    (f.step op).feed.Alike (g.step op).feed ∧ (g.step op).answer = (f.step op).answer ∧
      (g.step op).calls = (f.step op).calls := by
  obtain ⟨u, alike, rfl⟩ := h
  cases op with
  | mutate m =>
      refine ⟨?_, by cases m <;> rfl, rfl⟩
      simp only [Feed.step, Feed.mutate]
      split
      · exact ⟨u, alike, rfl⟩
      · exact ⟨u.trigger, (alike.step .trigger).1, rfl⟩
  | attach sink => exact ⟨⟨u.trigger, (alike.step .trigger).1, rfl⟩, rfl, rfl⟩
  | configure change =>
      refine ⟨?_, rfl, rfl⟩
      simp only [Feed.step, Feed.configure]
      split <;> exact ⟨u, alike, rfl⟩
  | flush =>
      obtain ⟨after, ran⟩ := alike.step .flush
      exact ⟨⟨_, after, rfl⟩, congrArg Answer.flushed ran, congrArg f.publishIf ran⟩
  | advance ms =>
      obtain ⟨after, ran⟩ := alike.step (.advance ms)
      exact ⟨⟨_, after, rfl⟩, rfl, congrArg f.publishIf ran⟩
  | clearSink | dispose | snapshot | triggeredBy | issuesAt | issuesIn =>
      exact ⟨⟨u, alike, rfl⟩, rfl, rfl⟩

end Alike

end Feed

end DiagnosticFeed
