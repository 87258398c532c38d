import DiagnosticFeed.Timer

/-!
# When a run is pending

A generation is settled only after it was given out (`Timer.Ordered`), so a
trigger always leaves a run pending. Apart from triggers, a step changes
whether a run is pending only by running or by giving up the action.
-/

namespace DiagnosticFeed

namespace Timer

/-- No generation is settled before its trigger. -/
def Ordered (t : Timer) : Prop := t.settled ≤ t.generation

theorem ordered_idleAt (now delay : Nat) : (idleAt now delay).Ordered := Nat.le_refl 0

theorem ordered_fire {t : Timer} (h : t.Ordered) : t.fire.1.Ordered := by
  unfold fire
  cases task : t.task with
  | none => exact h
  | some next =>
      by_cases due : t.backlog = 0 ∧ next.due ≤ t.now
      · by_cases latest : t.generation = next.generation
        · simp [due, settle, latest, Ordered]
        · simpa [due, settle, latest, Ordered] using h
      · simpa [due] using h

theorem ordered_step {t : Timer} (h : t.Ordered) (s : Step) : (t.step s).1.Ordered := by
  cases s with
  | trigger => exact Nat.le_succ_of_le h
  | cancel => exact Nat.le_refl _
  | flush => exact Nat.le_refl _
  | advance ms =>
      apply ordered_fire
      exact h

theorem isPending_trigger {t : Timer} (h : t.Ordered) : t.trigger.isPending = true := by
  have settled : t.settled < t.generation + 1 := Nat.lt_succ_of_le h
  exact decide_eq_true settled

/-- What is scheduled stays pending until it has happened. -/
theorem isPending_fire (t : Timer) :
    t.fire.1.isPending = (t.isPending && !t.fire.2) := by
  unfold fire
  cases task : t.task with
  | none => simp
  | some next =>
      by_cases due : t.backlog = 0 ∧ next.due ≤ t.now
      · by_cases latest : t.generation = next.generation
        · simp [due, settle, latest, isPending]
        · simp [due, settle, latest, isPending]
      · simp [due]

/-- A step other than a cancellation leaves a run pending if it is a trigger,
or if one was pending before and has not happened in the step. -/
theorem isPending_step {t : Timer} (h : t.Ordered) {s : Step} (hs : s ≠ .cancel) :
    (t.step s).1.isPending =
      (decide (s = .trigger) || (t.isPending && !(t.step s).2)) := by
  cases s with
  | trigger => simp [step, isPending_trigger h]
  | cancel => exact absurd rfl hs
  | flush => simp [step, flush]
  | advance ms =>
      simp only [step, advance, isPending_fire]
      rfl

end Timer

end DiagnosticFeed
