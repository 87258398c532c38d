import DiagnosticFeed.Proofs.Timer.Pending
import Mathlib.Data.List.Induction

/-!
# What is scheduled along a run

The two counters and the scheduled run of a timer stay in step (`Coherent`): a
run is pending exactly if one is scheduled, and what is scheduled belongs to the
latest generation. So whatever happens to the action happens for the latest
trigger, with nothing but waits behind it (`exists_latestTrigger`).
-/

namespace DiagnosticFeed

namespace Timer

def run (t : Timer) (steps : List Step) : Timer := steps.foldl (fun t s => (t.step s).1) t

def runs : Timer → List Step → Nat
  | _, [] => 0
  | t, s :: rest => (t.step s).2.toNat + (t.step s).1.runs rest

theorem run_cons (t : Timer) (s : Step) (rest : List Step) :
    t.run (s :: rest) = (t.step s).1.run rest := rfl

theorem run_append (t : Timer) (before after : List Step) :
    t.run (before ++ after) = (t.run before).run after := List.foldl_append

theorem run_concat (t : Timer) (steps : List Step) (s : Step) :
    t.run (steps ++ [s]) = ((t.run steps).step s).1 := run_append t steps [s]

theorem runs_concat (t : Timer) (steps : List Step) (s : Step) :
    t.runs (steps ++ [s]) = t.runs steps + ((t.run steps).step s).2.toNat := by
  induction steps generalizing t with
  | nil => simp [runs, run]
  | cons first rest ih => rw [List.cons_append, runs, ih, runs, run_cons, Nat.add_assoc]

variable {t : Timer}

/-- A wait lets a scheduled run happen: no trigger is left without its turn, and
the run is due when the wait is over. -/
def Wakes (t : Timer) (ms : Nat) (task : Task) : Prop :=
  t.backlogAfter ms = 0 ∧ task.due ≤ t.now + ms

theorem advance_of_not_wakes {ms : Nat}
    (h : ∀ task, t.task = some task → ¬t.Wakes ms task) :
    t.advance ms = ({ t with now := t.now + ms, backlog := t.backlogAfter ms }, false) := by
  unfold advance fire
  cases found : t.task with
  | none => rfl
  | some task => exact if_neg (h task found)

/-- The two counters and what is scheduled are in step. -/
structure Coherent (t : Timer) : Prop where
  ordered : t.Ordered
  pending : t.isPending = t.task.isSome
  latest : ∀ task, t.task = some task → task.generation = t.generation

theorem coherent_idleAt (now delay : Nat) : (idleAt now delay).Coherent where
  ordered := ordered_idleAt now delay
  pending := isPending_idleAt now delay
  latest := by rintro task ⟨⟩

theorem advance_of_wakes (h : t.Coherent) {ms : Nat} {task : Task}
    (scheduled : t.task = some task) (wakes : t.Wakes ms task) :
    t.advance ms =
      ({ t with now := t.now + ms, backlog := 0, task := none, settled := t.generation }, true) := by
  have latest := h.latest task scheduled
  obtain ⟨turn, due⟩ := wakes
  simp only [advance, fire, scheduled]
  rw [if_pos ⟨turn, due⟩, settle, if_pos latest.symm, latest, turn]

theorem advance_cases (h : t.Coherent) (ms : Nat) :
    ((∀ task, t.task = some task → ¬t.Wakes ms task) ∧
        t.advance ms = ({ t with now := t.now + ms, backlog := t.backlogAfter ms }, false)) ∨
      ∃ task, t.task = some task ∧ t.Wakes ms task ∧
        t.advance ms =
          ({ t with now := t.now + ms, backlog := 0, task := none, settled := t.generation },
            true) := by
  by_cases woken : ∃ task, t.task = some task ∧ t.Wakes ms task
  · obtain ⟨task, scheduled, wakes⟩ := woken
    exact Or.inr ⟨task, scheduled, wakes, advance_of_wakes h scheduled wakes⟩
  · have asleep : ∀ task, t.task = some task → ¬t.Wakes ms task :=
      fun task scheduled wakes => woken ⟨task, scheduled, wakes⟩
    exact Or.inl ⟨asleep, advance_of_not_wakes asleep⟩

theorem coherent_step (h : t.Coherent) (s : Step) : (t.step s).1.Coherent := by
  refine ⟨ordered_step h.ordered s, ?_, ?_⟩
  · cases s with
    | trigger => exact isPending_trigger h.ordered
    | cancel => exact isPending_cancel t
    | flush => exact isPending_cancel t
    | advance ms =>
        rcases advance_cases h ms with ⟨-, waited⟩ | ⟨task, -, -, ran⟩
        · rw [step, waited]
          exact h.pending
        · rw [step, ran]
          simp [isPending]
  · cases s with
    | trigger =>
        rintro task ⟨⟩
        rfl
    | cancel => rintro task ⟨⟩
    | flush => rintro task ⟨⟩
    | advance ms =>
        rcases advance_cases h ms with ⟨-, waited⟩ | ⟨task, -, -, ran⟩
        · rw [step, waited]
          exact h.latest
        · rw [step, ran]
          rintro task ⟨⟩

theorem coherent_run (h : t.Coherent) (steps : List Step) : (t.run steps).Coherent := by
  induction steps generalizing t with
  | nil => exact h
  | cons s rest ih => exact ih (coherent_step h s)

theorem exists_task_of_step (h : t.Coherent) {s : Step} (ran : (t.step s).2 = true) :
    ∃ task, t.task = some task ∧ (s = .flush ∨ ∃ ms, s = .advance ms ∧ t.Wakes ms task) := by
  cases s with
  | trigger => cases ran
  | cancel => cases ran
  | flush =>
      have scheduled : t.task.isSome = true := h.pending.symm.trans ran
      obtain ⟨task, scheduled⟩ := Option.isSome_iff_exists.1 scheduled
      exact ⟨task, scheduled, Or.inl rfl⟩
  | advance ms =>
      rcases advance_cases h ms with ⟨-, waited⟩ | ⟨task, scheduled, wakes, -⟩
      · rw [step, waited] at ran
        cases ran
      · exact ⟨task, scheduled, Or.inr ⟨ms, rfl, wakes⟩⟩

theorem runs_step_le (h : t.Coherent) (s : Step) :
    (t.step s).2.toNat + (t.step s).1.isPending.toNat ≤
      t.isPending.toNat + [s].count .trigger := by
  cases s with
  | trigger => simp [step, isPending_trigger h.ordered]
  | cancel => simp [step]
  | flush => simp [step, flush]
  | advance ms =>
      rcases advance_cases h ms with ⟨-, waited⟩ | ⟨task, scheduled, -, ran⟩
      · rw [step, waited]
        simp [isPending]
      · rw [step, ran, h.pending, scheduled]
        simp [isPending]

theorem runs_le_count (h : t.Coherent) (steps : List Step) :
    t.runs steps + (t.run steps).isPending.toNat ≤ t.isPending.toNat + steps.count .trigger := by
  induction steps generalizing t with
  | nil => simp [runs, run]
  | cons s rest ih =>
      have first := runs_step_le h s
      have others := ih (coherent_step h s)
      rw [runs, run_cons, ← List.singleton_append, List.count_append]
      omega

theorem delay_step (h : t.Coherent) (s : Step) : (t.step s).1.delay = t.delay := by
  cases s with
  | advance ms =>
      rcases advance_cases h ms with ⟨-, waited⟩ | ⟨-, -, -, ran⟩
      · rw [step, waited]
      · rw [step, ran]
  | _ => rfl

theorem delay_run (h : t.Coherent) (steps : List Step) : (t.run steps).delay = t.delay := by
  induction steps generalizing t with
  | nil => rfl
  | cons s rest ih => rw [run_cons, ih (coherent_step h s), delay_step h]

/-- The latest trigger of some steps: behind it are only waits, and the action
has run in none of them. -/
structure LatestTrigger (t : Timer) (steps before waits : List Step) : Prop where
  eq : steps = before ++ .trigger :: waits
  onlyWaits : ∀ s ∈ waits, ∃ ms, s = .advance ms
  notRun : (t.run (before ++ [.trigger])).runs waits = 0

theorem latestTrigger_concat_trigger (t : Timer) (steps : List Step) :
    t.LatestTrigger (steps ++ [.trigger]) steps [] where
  eq := rfl
  onlyWaits := by simp
  notRun := rfl

theorem LatestTrigger.concat_advance {steps before waits : List Step}
    (h : t.LatestTrigger steps before waits) {ms : Nat}
    (asleep : ((t.run steps).step (.advance ms)).2 = false) :
    t.LatestTrigger (steps ++ [.advance ms]) before (waits ++ [.advance ms]) where
  eq := by rw [h.eq, List.append_assoc, List.cons_append]
  onlyWaits := by
    intro s hs
    rcases List.mem_append.1 hs with hs | hs
    · exact h.onlyWaits s hs
    · exact ⟨ms, List.mem_singleton.1 hs⟩
  notRun := by
    have same : (t.run (before ++ [.trigger])).run waits = t.run steps := by
      rw [← run_append, List.append_assoc, List.singleton_append, ← h.eq]
    rw [runs_concat, h.notRun, same, asleep]
    rfl

/-- What is scheduled was scheduled by the latest trigger, a delay ahead. -/
theorem exists_latestTrigger (h : t.Coherent) (vacant : t.task = none) {steps : List Step}
    {task : Task} (scheduled : (t.run steps).task = some task) :
    ∃ before waits, t.LatestTrigger steps before waits ∧
      task.due = (t.run before).now + t.delay := by
  induction steps using List.reverseRecOn with
  | nil => cases vacant.symm.trans scheduled
  | append_singleton steps s ih =>
      rw [run_concat] at scheduled
      cases s with
      | trigger =>
          obtain rfl := Option.some.inj scheduled
          refine ⟨steps, [], latestTrigger_concat_trigger t steps, ?_⟩
          rw [delay_run h]
      | cancel => cases scheduled
      | flush => cases scheduled
      | advance ms =>
          rcases advance_cases (coherent_run h steps) ms with ⟨-, waited⟩ | ⟨-, -, -, ran⟩
          · rw [step, waited] at scheduled
            obtain ⟨before, waits, latest, due⟩ := ih scheduled
            refine ⟨before, waits ++ [.advance ms], latest.concat_advance ?_, due⟩
            rw [step, waited]
          · rw [step, ran] at scheduled
            cases scheduled

end Timer

end DiagnosticFeed
