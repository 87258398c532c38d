/-!
# Quiet timers

A timer runs an action once it has been quiet for a delay: every trigger takes
the place of the one before.  Time is counted in milliseconds and moves only
when the timer is told so.

Triggers are numbered by generations.  A scheduled run carries the generation
of its trigger and counts only while that is the latest one; a generation is
settled once its action has run or has been given up.

Every trigger has to get its turn before its run can happen.  Before time moves
on all triggers get their turns, but a wait of no length has room for some of
them only, so that the last of many triggers may stay behind in it.
-/

namespace DiagnosticFeed

/-- A run that is scheduled for a trigger. -/
structure Timer.Task where
  generation : Nat
  due : Nat
deriving DecidableEq

structure Timer where
  now : Nat
  delay : Nat
  generation : Nat
  settled : Nat
  task : Option Timer.Task
  /-- How many triggers have not had their turns. -/
  backlog : Nat
deriving DecidableEq

namespace Timer

inductive StartError where
  | noClock
deriving DecidableEq

def StartError.message : StartError → String
  | noClock =>
    "no tokio runtime available for the publish timer: there is no reactor running, " ++
      "must be called from the context of a Tokio 1.x runtime"

def idleAt (now delay : Nat) : Timer := ⟨now, delay, 0, 0, none, 0⟩

def start? (clock : Option Nat) (delay : Nat) : Except StartError Timer :=
  match clock with
  | some now => .ok (idleAt now delay)
  | none => .error .noClock

/-- Whether the latest trigger still waits for its run. -/
def isPending (t : Timer) : Bool := t.settled < t.generation

/-- Schedule a run after the delay, in place of the one before. -/
def trigger (t : Timer) : Timer :=
  { t with
    generation := t.generation + 1
    task := some ⟨t.generation + 1, t.now + t.delay⟩
    backlog := t.backlog + 1 }

def cancel (t : Timer) : Timer :=
  { t with
    generation := t.generation + 1
    settled := t.generation + 1
    task := none }

/-- Run the action now if a run is pending, and say whether it was. -/
def flush (t : Timer) : Timer × Bool := (t.cancel, t.isPending)

/-- Let the run for a generation happen if that is the latest one, and say
whether it did. -/
def settle (t : Timer) (generation : Nat) : Timer × Bool :=
  if t.generation = generation then ({ t with settled := generation }, true) else (t, false)

/-- Let what is scheduled happen if it is due and its trigger has had its turn,
and say whether the action has run. -/
def fire (t : Timer) : Timer × Bool :=
  match t.task with
  | some task =>
    if t.backlog = 0 ∧ task.due ≤ t.now then { t with task := none }.settle task.generation
    else (t, false)
  | none => (t, false)

/-- How many triggers get their turns in a wait of no length. -/
def turns : Nat := 61

/-- The triggers that have not had their turns after a wait. -/
def backlogAfter (t : Timer) (ms : Nat) : Nat := if ms = 0 then t.backlog - turns else 0

def advance (t : Timer) (ms : Nat) : Timer × Bool :=
  { t with now := t.now + ms, backlog := t.backlogAfter ms }.fire

@[simp]
theorem isPending_idleAt (now delay : Nat) : (idleAt now delay).isPending = false := by
  simp [isPending, idleAt]

@[simp]
theorem isPending_cancel (t : Timer) : t.cancel.isPending = false := by
  simp [isPending, cancel]

@[simp]
theorem now_fire (t : Timer) : t.fire.1.now = t.now := by
  unfold fire settle
  split
  · split
    · split <;> rfl
    · rfl
  · rfl

@[simp]
theorem now_advance (t : Timer) (ms : Nat) : (t.advance ms).1.now = t.now + ms :=
  now_fire _

inductive Step where
  | trigger
  | cancel
  | flush
  | advance (ms : Nat)
deriving DecidableEq

def step (t : Timer) : Step → Timer × Bool
  | .trigger => (t.trigger, false)
  | .cancel => (t.cancel, false)
  | .flush => t.flush
  | .advance ms => t.advance ms

end Timer

end DiagnosticFeed
