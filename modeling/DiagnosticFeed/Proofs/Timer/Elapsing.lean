import DiagnosticFeed.Proofs.Timer.Waking

/-!
# Time that passes in parts

A timer that lets some time pass in two waits does what it does in one: the
action runs in one of the two, or in none (`advance_add_cases`). The waits without
length are apart, as each of them gives turns to some triggers only. They can be
told from one such wait where more triggers are left than it gives turns to and
the run is due all the same, which needs a delay of no length (`Crowded`).
-/

namespace DiagnosticFeed

namespace Timer

variable {t u v : Timer}

/-! ## Two waits and one -/

theorem backlogAfter_of_le (h : t.backlog ≤ turns) (ms : Nat) : t.backlogAfter ms = 0 := by
  unfold backlogAfter
  split
  · exact Nat.sub_eq_zero_of_le h
  · rfl

theorem backlog_advance (h : t.Coherent) (ms : Nat) :
    (t.advance ms).1.backlog = t.backlogAfter ms := by
  rcases advance_cases h ms with ⟨-, waited⟩ | ⟨task, -, ⟨turn, -⟩, ran⟩
  · rw [waited]
  · rw [ran, turn]

theorem coherent_advance (h : t.Coherent) (ms : Nat) : (t.advance ms).1.Coherent :=
  coherent_step h (.advance ms)

/-- The action runs in the first of two waits, or in the second, or in none, and
the timer is where one wait takes it. -/
theorem advance_add_cases (h : t.Coherent) {a b : Nat} (turn : 0 < a + b ∨ t.backlog ≤ turns) :
    (∃ u, t.advance a = (u, false) ∧ u.advance b = t.advance (a + b)) ∨
      ∃ u v, t.advance a = (u, true) ∧ u.advance b = (v, false) ∧
        t.advance (a + b) = (v, true) := by
  have turned : t.backlogAfter (a + b) = 0 := by
    rcases turn with long | few
    · exact backlogAfter_of_pos t long
    · exact backlogAfter_of_le few _
  rcases advance_cases h a with ⟨-, waited⟩ | ⟨task, scheduled, ⟨-, due⟩, ran⟩
  · left
    have both : ({ t with now := t.now + a, backlog := t.backlogAfter a } : Timer).backlogAfter b =
        t.backlogAfter (a + b) := by
      rw [turned]
      rcases Nat.eq_zero_or_pos b with rfl | pos
      · exact backlogAfter_of_le (Nat.le_trans (Nat.le_of_eq turned) (Nat.zero_le _)) 0
      · exact backlogAfter_of_pos _ pos
    refine ⟨_, waited, ?_⟩
    simp only [advance, both, Nat.add_assoc]
  · right
    refine ⟨_, { t with now := t.now + a + b, backlog := 0, task := none, settled := t.generation },
      ran, ?_, ?_⟩
    · rw [advance_of_not_wakes (by rintro task ⟨⟩), backlogAfter_of_le (Nat.zero_le _)]
    · rw [Nat.add_assoc]
      exact advance_of_wakes h scheduled ⟨turned, by omega⟩

/-! ## Timers that only differ in the turns that are left -/

/-- Two timers that are the same but for the triggers without their turns, and
these are as many, or no wait without length can show them. -/
structure Alike (t u : Timer) : Prop where
  coherent : t.Coherent
  same : u = { t with backlog := u.backlog }
  unseen : u.backlog = t.backlog ∨ 0 < t.delay ∧ t.Ahead

namespace Alike

theorem refl (h : t.Coherent) : t.Alike t := ⟨h, rfl, Or.inl rfl⟩

theorem of_ahead (h : t.Coherent) (long : 0 < t.delay) (ahead : t.Ahead) (backlog : Nat) :
    t.Alike { t with backlog } := ⟨h, rfl, Or.inr ⟨long, ahead⟩⟩

theorem step (h : t.Alike u) (s : Step) :
    (t.step s).1.Alike (u.step s).1 ∧ (u.step s).2 = (t.step s).2 := by
  have coherent := coherent_step h.coherent s
  rcases h.unseen with equal | ⟨long, ahead⟩
  · obtain rfl : u = t := by rw [h.same, equal]
    exact ⟨refl coherent, rfl⟩
  · have ahead' := ahead_step h.coherent long ahead s
    have long' : 0 < (t.step s).1.delay := by rwa [delay_step h.coherent]
    rw [h.same]
    cases s with
    | trigger => exact ⟨⟨coherent, rfl, Or.inr ⟨long', ahead'⟩⟩, rfl⟩
    | cancel => exact ⟨⟨coherent, rfl, Or.inr ⟨long', ahead'⟩⟩, rfl⟩
    | flush => exact ⟨⟨coherent, rfl, Or.inr ⟨long', ahead'⟩⟩, rfl⟩
    | advance ms =>
        rcases Nat.eq_zero_or_pos ms with rfl | pos
        · have asleep : ∀ task, t.task = some task → ¬task.due ≤ t.now :=
            fun task scheduled => Nat.not_le_of_lt (ahead task scheduled)
          have waited : t.advance 0 = _ :=
            advance_of_not_wakes fun task scheduled wakes => asleep task scheduled wakes.2
          have waited' : ({ t with backlog := u.backlog } : Timer).advance 0 = _ :=
            advance_of_not_wakes fun task scheduled wakes => asleep task scheduled wakes.2
          rw [Timer.step, waited] at coherent long' ahead' ⊢
          rw [Timer.step, waited']
          exact ⟨⟨coherent, rfl, Or.inr ⟨long', ahead'⟩⟩, rfl⟩
        · have equal : ({ t with backlog := u.backlog } : Timer).advance ms = t.advance ms := by
            simp only [advance, backlogAfter_of_pos _ pos]
          rw [Timer.step, Timer.step, equal]
          exact ⟨refl coherent, rfl⟩

end Alike

/-! ## Waits without length -/

/-- The runs of a timer are scheduled no more than a delay ahead, and, if the
delay has some length, not behind. -/
structure Punctual (t : Timer) : Prop where
  coherent : t.Coherent
  near : ∀ task, t.task = some task → task.due ≤ t.now + t.delay
  ahead : 0 < t.delay → t.Ahead

theorem punctual_idleAt (now delay : Nat) : (idleAt now delay).Punctual where
  coherent := coherent_idleAt now delay
  near := by rintro task ⟨⟩
  ahead := by rintro - task ⟨⟩

namespace Punctual

theorem step (h : t.Punctual) (s : Step) : (t.step s).1.Punctual := by
  refine ⟨coherent_step h.coherent s, ?_, fun long => ?_⟩
  · rw [delay_step h.coherent]
    cases s with
    | trigger =>
        rintro task ⟨⟩
        exact Nat.le_refl _
    | cancel => rintro task ⟨⟩
    | flush => rintro task ⟨⟩
    | advance ms =>
        rcases advance_cases h.coherent ms with ⟨-, waited⟩ | ⟨-, -, -, ran⟩
        · rw [Timer.step, waited]
          intro task scheduled
          have near := h.near task scheduled
          exact Nat.le_trans near (by simp only; omega)
        · rw [Timer.step, ran]
          rintro task ⟨⟩
  · rw [delay_step h.coherent] at long
    exact ahead_step h.coherent long (h.ahead long) s

theorem run (h : t.Punctual) (steps : List Step) : (t.run steps).Punctual := by
  induction steps generalizing t with
  | nil => exact h
  | cons s rest ih => exact ih (h.step s)

/-- What is scheduled is due at once exactly if the delay has no length. -/
theorem due_le_now_iff (h : t.Punctual) {task : Task} (scheduled : t.task = some task) :
    task.due ≤ t.now ↔ t.delay = 0 := by
  constructor
  · intro due
    rcases Nat.eq_zero_or_pos t.delay with none | long
    · exact none
    · exact absurd due (Nat.not_le_of_lt (h.ahead long task scheduled))
  · intro none
    have near := h.near task scheduled
    rwa [none] at near

/-- In a wait without length a run happens if it is pending without a delay and
all triggers get their turns. -/
theorem advance_zero (h : t.Punctual) : t.advance 0 =
    if t.delay = 0 ∧ t.isPending = true ∧ t.backlog ≤ turns then
      ({ t with backlog := 0, task := none, settled := t.generation }, true)
    else ({ t with backlog := t.backlog - turns }, false) := by
  have turned : t.backlogAfter 0 = 0 ↔ t.backlog ≤ turns := Nat.sub_eq_zero_iff_le
  split
  case isTrue runs =>
    obtain ⟨none, pending, turn⟩ := runs
    rw [h.coherent.pending, Option.isSome_iff_exists] at pending
    obtain ⟨task, scheduled⟩ := pending
    exact advance_of_wakes h.coherent scheduled
      ⟨turned.2 turn, (h.due_le_now_iff scheduled).2 none⟩
  case isFalse sleeps =>
    refine advance_of_not_wakes fun task scheduled wakes => sleeps ⟨?_, ?_, turned.1 wakes.1⟩
    · exact (h.due_le_now_iff scheduled).1 wakes.2
    · rw [h.coherent.pending, scheduled, Option.isSome_some]

theorem advance_zero_of_asleep (h : t.Punctual) (asleep : 0 < t.delay ∨ turns < t.backlog) :
    t.advance 0 = ({ t with backlog := t.backlog - turns }, false) := by
  rw [h.advance_zero, if_neg]
  rintro ⟨none, -, few⟩
  omega

theorem with_backlog (h : t.Punctual) (backlog : Nat) : Punctual { t with backlog } :=
  ⟨⟨h.coherent.ordered, h.coherent.pending, h.coherent.latest⟩, h.near, h.ahead⟩

end Punctual

/-- A run is pending without a delay, and one wait without length does not give
all triggers their turns, but two of them do. -/
def Crowded (t : Timer) : Prop :=
  t.delay = 0 ∧ t.isPending = true ∧ turns < t.backlog ∧ t.backlog ≤ 2 * turns

instance (t : Timer) : Decidable t.Crowded := inferInstanceAs (Decidable (_ ∧ _ ∧ _ ∧ _))

/-- Where a timer is crowded, the second of two waits without length lets the run
happen. -/
theorem Punctual.advance_zero_of_crowded (h : t.Punctual) (crowded : t.Crowded) :
    ∃ u v, t.advance 0 = (u, false) ∧ u.isPending = true ∧ u.advance 0 = (v, true) ∧
      v.isPending = false := by
  obtain ⟨none, pending, many, few⟩ := crowded
  have first := h.advance_zero_of_asleep (Or.inr many)
  have second := (h.with_backlog (t.backlog - turns)).advance_zero
  rw [if_pos ⟨none, pending, by simp only; omega⟩] at second
  exact ⟨_, _, first, pending, second, by simp [isPending]⟩

/-- Elsewhere the second wait without length does no more than to give turns. -/
theorem Punctual.advance_zero_of_not_crowded (h : t.Punctual) (many : turns < t.backlog)
    (sparse : ¬t.Crowded) :
    ∃ u, t.advance 0 = (u, false) ∧
      u.advance 0 = ({ u with backlog := u.backlog - turns }, false) := by
  have first := h.advance_zero_of_asleep (Or.inr many)
  refine ⟨_, first, ?_⟩
  rw [(h.with_backlog _).advance_zero, if_neg]
  rintro ⟨none, pending, few⟩
  refine sparse ⟨none, pending, many, ?_⟩
  simp only at few
  omega

/-! ## Triggers without their turns -/

/-- A trigger that has not had its turn has left a run pending. -/
def Owing (t : Timer) : Prop := 0 < t.backlog → t.isPending = true

theorem owing_idleAt (now delay : Nat) : (idleAt now delay).Owing :=
  fun some => absurd some (Nat.lt_irrefl 0)

/-- So it is until a run is given up, or made early. -/
theorem owing_step (h : t.Coherent) (owing : t.Owing) {s : Step} (notCancel : s ≠ .cancel)
    (notFlush : s ≠ .flush) : (t.step s).1.Owing := by
  cases s with
  | trigger => exact fun _ => isPending_trigger h.ordered
  | cancel => exact absurd rfl notCancel
  | flush => exact absurd rfl notFlush
  | advance ms =>
      rcases advance_cases h ms with ⟨-, waited⟩ | ⟨-, -, -, ran⟩
      · rw [step, waited]
        exact fun some => owing (Nat.lt_of_lt_of_le some (backlogAfter_le t ms))
      · rw [step, ran]
        exact fun some => absurd some (Nat.lt_irrefl 0)

theorem owing_run (h : t.Coherent) (owing : t.Owing) {steps : List Step}
    (noCancel : .cancel ∉ steps) (noFlush : .flush ∉ steps) : (t.run steps).Owing := by
  induction steps generalizing t with
  | nil => exact owing
  | cons s rest ih =>
      rw [List.mem_cons, not_or] at noCancel noFlush
      have first := owing_step h owing (Ne.symm noCancel.1) (Ne.symm noFlush.1)
      exact ih (coherent_step h s) first noCancel.2 noFlush.2

end Timer

end DiagnosticFeed
