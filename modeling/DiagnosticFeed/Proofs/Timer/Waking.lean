import DiagnosticFeed.Proofs.Timer.Scheduled

/-!
# When the runtime wakes a run

The bookkeeping of a timer relies on the runtime to wake a sleeping run in the
wait that reaches the time it is due (`WakesInTime`). It does so unless a delay of
no length has left more triggers behind than get their turns in a wait of no length.
-/

namespace DiagnosticFeed

namespace Timer

variable {t : Timer}

/-- What is taken for granted of the runtime in a step: a scheduled run wakes in a
wait exactly if the wait reaches the time that the run is due. -/
def InTime (t : Timer) : Step → Prop
  | .advance ms => ∀ task, t.task = some task → (t.Wakes ms task ↔ task.due ≤ t.now + ms)
  | _ => True

def WakesInTime (t : Timer) (steps : List Step) : Prop :=
  ∀ earlier s later, steps = earlier ++ s :: later → (t.run earlier).InTime s

theorem WakesInTime.head {s : Step} {rest : List Step}
    (h : t.WakesInTime (s :: rest)) : t.InTime s := h [] s rest rfl

theorem WakesInTime.tail {s : Step} {rest : List Step}
    (h : t.WakesInTime (s :: rest)) : (t.step s).1.WakesInTime rest := by
  intro earlier s' later eq
  exact h (s :: earlier) s' later (by rw [eq, List.cons_append])

theorem backlogAfter_of_pos (t : Timer) {ms : Nat} (h : 0 < ms) : t.backlogAfter ms = 0 :=
  if_neg (Nat.ne_of_gt h)

theorem backlogAfter_le (t : Timer) (ms : Nat) : t.backlogAfter ms ≤ t.backlog := by
  unfold backlogAfter
  split
  · exact Nat.sub_le t.backlog turns
  · exact Nat.zero_le t.backlog

theorem backlog_step_le (h : t.Coherent) (s : Step) :
    (t.step s).1.backlog ≤ t.backlog + [s].count .trigger := by
  cases s with
  | trigger => simp [step, trigger]
  | cancel => simp [step, cancel]
  | flush => simp [step, flush, cancel]
  | advance ms =>
      rcases advance_cases h ms with ⟨-, waited⟩ | ⟨-, -, -, ran⟩
      · rw [step, waited]
        exact Nat.le_add_right_of_le (backlogAfter_le t ms)
      · rw [step, ran]
        exact Nat.zero_le _

theorem backlog_run_le (h : t.Coherent) (steps : List Step) :
    (t.run steps).backlog ≤ t.backlog + steps.count .trigger := by
  induction steps generalizing t with
  | nil => simp [run]
  | cons s rest ih =>
      have first := backlog_step_le h s
      have others := ih (coherent_step h s)
      rw [run_cons, ← List.singleton_append, List.count_append]
      omega

/-- What is scheduled lies in the future. -/
def Ahead (t : Timer) : Prop := ∀ task, t.task = some task → t.now < task.due

theorem ahead_step (h : t.Coherent) (long : 0 < t.delay) (ahead : t.Ahead) (s : Step) :
    (t.step s).1.Ahead := by
  cases s with
  | trigger =>
      rintro task ⟨⟩
      exact Nat.lt_add_of_pos_right long
  | cancel => rintro task ⟨⟩
  | flush => rintro task ⟨⟩
  | advance ms =>
      rcases advance_cases h ms with ⟨asleep, waited⟩ | ⟨-, -, -, ran⟩
      · rw [step, waited]
        intro task scheduled
        rcases Nat.eq_zero_or_pos ms with rfl | pos
        · exact ahead task scheduled
        · -- A wait of some length leaves no trigger without its turn.
          refine Nat.lt_of_not_le fun due => asleep task scheduled ⟨?_, due⟩
          exact backlogAfter_of_pos t pos
      · rw [step, ran]
        rintro task ⟨⟩

theorem ahead_run (h : t.Coherent) (long : 0 < t.delay) (ahead : t.Ahead) (steps : List Step) :
    (t.run steps).Ahead := by
  induction steps generalizing t with
  | nil => exact ahead
  | cons s rest ih =>
      have long' : 0 < (t.step s).1.delay := by rwa [delay_step h]
      exact ih (coherent_step h s) long' (ahead_step h long ahead s)

/-- The runtime wakes everything in time if, should the delay have no length, all
triggers get their turns in a wait. -/
theorem wakesInTime_idleAt (now : Nat) {delay : Nat} {steps : List Step}
    (turn : 0 < delay ∨ steps.count .trigger ≤ turns) :
    (idleAt now delay).WakesInTime steps := by
  intro earlier s later eq
  cases s with
  | advance ms =>
      intro task scheduled
      refine and_iff_right_of_imp fun due => ?_
      rcases Nat.eq_zero_or_pos ms with rfl | pos
      · rcases turn with long | few
        · have ahead := ahead_run (coherent_idleAt now delay) long (by rintro task ⟨⟩) earlier
          exact absurd due (Nat.not_le_of_lt (ahead task scheduled))
        · have backlog := backlog_run_le (coherent_idleAt now delay) earlier
          have count : steps.count .trigger = earlier.count .trigger + later.count .trigger := by
            rw [eq, List.count_append, List.count_cons_of_ne (by rintro ⟨⟩)]
          have rest : ((idleAt now delay).run earlier).backlog ≤ turns := by
            have none : (idleAt now delay).backlog = 0 := rfl
            omega
          exact Nat.sub_eq_zero_of_le rest
      · exact backlogAfter_of_pos _ pos
  | _ => exact trivial

end Timer

end DiagnosticFeed
