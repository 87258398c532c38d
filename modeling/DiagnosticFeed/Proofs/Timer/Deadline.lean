import DiagnosticFeed.Proofs.Timer.Waking

/-!
# Timers as deadlines

All that can be seen of a timer is what a machine shows that knows the time and
one deadline, as far as the runtime wakes what is scheduled in time. The two
counters, the scheduled run and its generation come down to the deadline
(`Mirrors`).
-/

namespace DiagnosticFeed

/-- A machine with a clock and the time of a run. -/
structure Deadline where
  now : Nat
  delay : Nat
  due : Option Nat
deriving DecidableEq

namespace Deadline

def idleAt (now delay : Nat) : Deadline := ⟨now, delay, none⟩

def isPending (m : Deadline) : Bool := m.due.isSome

def reach (m : Deadline) : Deadline × Bool :=
  match m.due with
  | some due => if due ≤ m.now then ({ m with due := none }, true) else (m, false)
  | none => (m, false)

def step (m : Deadline) : Timer.Step → Deadline × Bool
  | .trigger => ({ m with due := some (m.now + m.delay) }, false)
  | .cancel => ({ m with due := none }, false)
  | .flush => ({ m with due := none }, m.isPending)
  | .advance ms => { m with now := m.now + ms }.reach

theorem advance_of_reached {m : Deadline} {ms due : Nat} (pending : m.due = some due)
    (reached : due ≤ m.now + ms) :
    m.step (.advance ms) = ({ m with now := m.now + ms, due := none }, true) := by
  simp only [step, reach, pending]
  exact if_pos reached

theorem advance_of_not_reached {m : Deadline} {ms : Nat}
    (h : ∀ due, m.due = some due → ¬due ≤ m.now + ms) :
    m.step (.advance ms) = ({ m with now := m.now + ms }, false) := by
  unfold step reach
  cases pending : m.due with
  | none => rfl
  | some due => exact if_neg (h due pending)

end Deadline

/-- What can be seen after a step: whether a run is pending, what a flush has
said, and how often the action has run so far. -/
structure Sight where
  pending : Bool
  flushed : Option Bool
  runs : Nat
deriving DecidableEq

def Sight.along {σ : Type} (step : σ → Timer.Step → σ × Bool) (isPending : σ → Bool) :
    σ → Nat → List Timer.Step → List Sight
  | _, _, [] => []
  | m, runs, s :: rest =>
    let (after, ran) := step m s
    let runs := if ran then runs + 1 else runs
    ⟨isPending after, if s = .flush then some ran else none, runs⟩ ::
      along step isPending after runs rest

def Deadline.sights (m : Deadline) (steps : List Timer.Step) : List Sight :=
  Sight.along Deadline.step Deadline.isPending m 0 steps

namespace Timer

def sights (t : Timer) (steps : List Step) : List Sight :=
  Sight.along Timer.step Timer.isPending t 0 steps

/-- A timer and a machine with a deadline that stand for each other. -/
structure Mirrors (t : Timer) (m : Deadline) : Prop where
  coherent : t.Coherent
  now : m.now = t.now
  delay : m.delay = t.delay
  due : m.due = t.task.map (·.due)

theorem mirrors_idleAt (now delay : Nat) :
    (idleAt now delay).Mirrors (Deadline.idleAt now delay) where
  coherent := coherent_idleAt now delay
  now := rfl
  delay := rfl
  due := rfl

section

variable {t : Timer} {m : Deadline}

theorem Mirrors.isPending (h : t.Mirrors m) : m.isPending = t.isPending := by
  rw [Deadline.isPending, h.due, Option.isSome_map, h.coherent.pending]

/-- Two machines that stand for each other go on to do so, and the action runs in
both of them or in none. -/
theorem Mirrors.step (h : t.Mirrors m) {s : Step} (inTime : t.InTime s) :
    (t.step s).1.Mirrors (m.step s).1 ∧ (m.step s).2 = (t.step s).2 := by
  have coherent := coherent_step h.coherent s
  cases s with
  | trigger =>
      have due : some (m.now + m.delay) = t.trigger.task.map (·.due) := by
        rw [h.now, h.delay]
        rfl
      exact ⟨⟨coherent, h.now, h.delay, due⟩, rfl⟩
  | cancel => exact ⟨⟨coherent, h.now, h.delay, rfl⟩, rfl⟩
  | flush => exact ⟨⟨coherent, h.now, h.delay, rfl⟩, h.isPending⟩
  | advance ms =>
      have clock : m.now + ms = t.now + ms := by rw [h.now]
      rcases advance_cases h.coherent ms with ⟨asleep, waited⟩ | ⟨task, scheduled, wakes, ran⟩
      · have notReached : ∀ due, m.due = some due → ¬due ≤ m.now + ms := by
          intro due pending reached
          rw [h.due, Option.map_eq_some_iff] at pending
          obtain ⟨task, scheduled, rfl⟩ := pending
          rw [clock] at reached
          exact asleep task scheduled ((inTime task scheduled).2 reached)
        rw [Timer.step, waited] at coherent ⊢
        rw [Deadline.advance_of_not_reached notReached]
        exact ⟨⟨coherent, clock, h.delay, h.due⟩, rfl⟩
      · have pending : m.due = some task.due := by rw [h.due, scheduled, Option.map_some]
        have reached : task.due ≤ m.now + ms := by
          rw [clock]
          exact (inTime task scheduled).1 wakes
        rw [Timer.step, ran] at coherent ⊢
        rw [Deadline.advance_of_reached pending reached]
        exact ⟨⟨coherent, clock, h.delay, rfl⟩, rfl⟩

/-- Two machines that stand for each other cannot be told apart by what is seen. -/
theorem Mirrors.along_eq (h : t.Mirrors m) (runs : Nat) {steps : List Step}
    (inTime : t.WakesInTime steps) :
    Sight.along Timer.step Timer.isPending t runs steps =
      Sight.along Deadline.step Deadline.isPending m runs steps := by
  induction steps generalizing t m runs with
  | nil => rfl
  | cons s rest ih =>
      obtain ⟨after, ran⟩ := h.step inTime.head
      simp only [Sight.along, ran, after.isPending, ih after _ inTime.tail]

end

/-- A timer that the runtime wakes in time cannot be told from a machine with one
deadline: after every step a run is pending in both or in none, the flushes have
said the same, and the action has run as often. What runs belongs to the latest
trigger, with nothing but waits behind it, in which it has not run; it runs in a
flush, or in a wait that ends no earlier than a delay after that trigger; and
there are no more runs than triggers. -/
theorem sights_eq_deadline (now delay : Nat) (steps : List Step)
    (inTime : (idleAt now delay).WakesInTime steps) :
    (idleAt now delay).sights steps = (Deadline.idleAt now delay).sights steps ∧
      (∀ earlier s later, steps = earlier ++ s :: later →
        (((idleAt now delay).run earlier).step s).2 = true →
          ∃ before waits, (idleAt now delay).LatestTrigger earlier before waits ∧
            (s = .flush ∨ ∃ ms, s = .advance ms ∧
              ((idleAt now delay).run before).now + delay ≤
                ((idleAt now delay).run earlier).now + ms)) ∧
        (idleAt now delay).runs steps ≤ steps.count .trigger := by
  have coherent := coherent_idleAt now delay
  refine ⟨(mirrors_idleAt now delay).along_eq 0 inTime, ?_, ?_⟩
  · intro earlier s later eq ran
    obtain ⟨task, scheduled, how⟩ := exists_task_of_step (coherent_run coherent earlier) ran
    obtain ⟨before, waits, latest, due⟩ := exists_latestTrigger coherent rfl scheduled
    refine ⟨before, waits, latest, how.imp_right ?_⟩
    rintro ⟨ms, rfl, wakes⟩
    have reached := (inTime earlier _ later eq task scheduled).1 wakes
    rw [due] at reached
    exact ⟨ms, rfl, reached⟩
  · have bound := runs_le_count coherent steps
    rw [isPending_idleAt, Bool.toNat_false, Nat.zero_add] at bound
    exact Nat.le_of_add_right_le bound

/-- A trigger that is replaced and then given up, one that gets its run, and one
whose run comes early. -/
def restarts : List Step :=
  [.trigger, .advance 50, .trigger, .advance 99, .cancel, .advance 1, .flush,
    .trigger, .advance 100, .flush, .trigger, .flush, .advance 200]

theorem sights_eq_deadline_restarts :
    (idleAt 0 100).WakesInTime restarts ∧
      (idleAt 0 100).sights restarts = (Deadline.idleAt 0 100).sights restarts ∧
        (idleAt 0 100).runs restarts = 2 ∧ restarts.count .trigger = 4 := by
  have inTime : (idleAt 0 100).WakesInTime restarts :=
    wakesInTime_idleAt 0 (Or.inl (by decide))
  exact ⟨inTime, (sights_eq_deadline 0 100 restarts inTime).1, by decide, by decide⟩

end Timer

end DiagnosticFeed
