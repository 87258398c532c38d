import DiagnosticFeed.Sink
import DiagnosticFeed.Store.Mutation
import DiagnosticFeed.Store.Query
import DiagnosticFeed.Timer

/-!
# The feed

A feed joins the store, the settings, a quiet timer and an outlet.  Changes of
the store show in queries at once, and they trigger the timer; when it runs, all
messages are published to the attached sink.  Attaching a sink triggers the
timer too, so that a new sink gets to know the present state.

`Feed.step` does one operation.  It gives the feed after the operation, the
answer to it, and the calls that went to sinks.
-/

namespace DiagnosticFeed

/-- A feed to sinks that are named by `σ`. -/
structure Feed (σ : Type) where
  store : Store
  settings : Settings
  /-- Whether the settings may be changed from outside. -/
  adjustable : Bool
  timer : Timer
  outlet : Outlet σ

namespace Feed

variable {σ : Type}

/-- The delay where nothing else is said, in milliseconds. -/
def standardDelay : Nat := 100

/-- An empty feed with settings that may be changed while it is in use. -/
def withSettings (settings : Settings) (delay : Nat) : Feed σ :=
  ⟨.empty, settings, true, .idleAt 0 delay, .vacant⟩

/-- An empty feed with the standard settings, now and later. -/
def plain : Feed σ := ⟨.empty, .standard, false, .idleAt 0 standardDelay, .vacant⟩

def start? (clock : Option Nat) (settings : Settings) (delay : Nat) :
    Except Timer.StartError (Feed σ) :=
  (Timer.start? clock delay).map fun timer => ⟨.empty, settings, true, timer, .vacant⟩

/-- The messages for all issues in the store, as the settings are now. -/
def messages (f : Feed σ) : List Message := f.settings.messages f.store.issues

/-- The number of files in the store, each counted once for every tag. -/
def fileCount (f : Feed σ) : Nat := f.store.fileCount

def issueCount (f : Feed σ) : Nat := f.store.issueCount

def publishIf (f : Feed σ) (ran : Bool) : Deliveries σ :=
  if ran then f.outlet.publish fun _ => f.messages else []

def schedule (f : Feed σ) : Feed σ := { f with timer := f.timer.trigger }

/-- Change the store and schedule a publication, unless the change asks for
nothing. -/
def mutate (f : Feed σ) (m : Mutation) : Feed σ :=
  if m.isVoid then f else { f with store := f.store.apply m }.schedule

/-- Attach a sink in place of the one before, and schedule a publication. -/
def attach (f : Feed σ) (sink : σ) : Feed σ :=
  { f with outlet := f.outlet.attach sink }.schedule

def dispose (f : Feed σ) : Feed σ := { f with outlet := .vacant }

/-- Change the settings, if they may be changed. -/
def configure (f : Feed σ) (change : Settings.Change) : Feed σ :=
  if f.adjustable then { f with settings := f.settings.apply change } else f

def flush (f : Feed σ) : Feed σ × Bool :=
  let (timer, ran) := f.timer.flush
  ({ f with timer }, ran)

def advance (f : Feed σ) (ms : Nat) : Feed σ × Bool :=
  let (timer, ran) := f.timer.advance ms
  ({ f with timer }, ran)

inductive Op (σ : Type) where
  | mutate (m : Mutation)
  | attach (sink : σ)
  | clearSink
  | dispose
  | configure (change : Settings.Change)
  | flush
  | advance (ms : Nat)
  | snapshot
  | triggeredBy (trigger : String)
  | issuesAt (file : String) (p : Point)
  | issuesIn (file : String) (asked : Span)

inductive Answer (σ : Type) where
  | done
  | cleared (batches : Nat)
  | replaced (sink : Option σ)
  | flushed (published : Bool)
  | messages (messages : List Message)
  | files (files : List FileKey)
  | issues (issues : List Diagnostic)

def mutationAnswer (f : Feed σ) : Mutation → Answer σ
  | .report .. => .done
  | .clear selection => .cleared (f.store.selectedCount selection)

structure Outcome (σ : Type) where
  feed : Feed σ
  answer : Answer σ
  calls : Deliveries σ

def step (f : Feed σ) : Op σ → Outcome σ
  | .mutate m => ⟨f.mutate m, f.mutationAnswer m, []⟩
  | .attach sink => ⟨f.attach sink, .replaced f.outlet.sink, []⟩
  | .clearSink => ⟨f, .done, f.outlet.tell .clear⟩
  | .dispose => ⟨f.dispose, .done, f.outlet.dispose⟩
  | .configure change => ⟨f.configure change, .done, []⟩
  | .flush =>
    let (f', ran) := f.flush
    ⟨f', .flushed ran, f'.publishIf ran⟩
  | .advance ms =>
    let (f', ran) := f.advance ms
    ⟨f', .done, f'.publishIf ran⟩
  | .snapshot => ⟨f, .messages f.messages, []⟩
  | .triggeredBy trigger => ⟨f, .files (f.store.triggeredBy trigger), []⟩
  | .issuesAt file p => ⟨f, .issues (f.store.issuesAt file p), []⟩
  | .issuesIn file asked => ⟨f, .issues (f.store.issuesIn file asked), []⟩

def run (f : Feed σ) : List (Op σ) → Feed σ × Deliveries σ
  | [] => (f, [])
  | op :: rest =>
    let first := f.step op
    let (last, calls) := first.feed.run rest
    (last, first.calls ++ calls)

@[simp]
theorem run_nil (f : Feed σ) : f.run [] = (f, []) := rfl

theorem run_cons (f : Feed σ) (op : Op σ) (rest : List (Op σ)) :
    f.run (op :: rest) =
      (((f.step op).feed.run rest).1,
        (f.step op).calls ++ ((f.step op).feed.run rest).2) := rfl

theorem run_append (f : Feed σ) (first second : List (Op σ)) :
    f.run (first ++ second) =
      (((f.run first).1.run second).1,
        (f.run first).2 ++ ((f.run first).1.run second).2) := by
  induction first generalizing f with
  | nil => rfl
  | cons op rest ih => simp [run_cons, ih]

end Feed

end DiagnosticFeed
