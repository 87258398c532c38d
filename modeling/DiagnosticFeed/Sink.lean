import DiagnosticFeed.Message

/-!
# Sinks

A sink receives the complete set of messages at every publication.  One sink is
attached to an `Outlet` at a time, and all calls go to it.  A sink of the kind
`Sink.Memory` keeps what it was told, and one of the kind `Sink.Channel` passes
it on to a receiver.
-/

namespace DiagnosticFeed

inductive Sink.Call where
  /-- These are all messages now. -/
  | publish (messages : List Message)
  | clear
  | dispose
deriving DecidableEq

abbrev Deliveries (σ : Type) := List (σ × Sink.Call)

/-! ## Outlets -/

structure Outlet (σ : Type) where
  sink : Option σ

namespace Outlet

variable {σ : Type}

def vacant : Outlet σ := ⟨none⟩

/-- Attach a sink in place of the one before, which is told nothing. -/
def attach (_ : Outlet σ) (sink : σ) : Outlet σ := ⟨some sink⟩

def tell (o : Outlet σ) (call : Sink.Call) : Deliveries σ :=
  match o.sink with
  | some sink => [(sink, call)]
  | none => []

/-- Hand messages to the sink, if there is one; they are made for it only. -/
def publish (o : Outlet σ) (messages : Unit → List Message) : Deliveries σ :=
  match o.sink with
  | some sink => [(sink, .publish (messages ()))]
  | none => []

/-- Clear the sink and release it, if there is one. -/
def dispose (o : Outlet σ) : Deliveries σ := o.tell .clear ++ o.tell .dispose

end Outlet

/-! ## Kinds of sinks -/

namespace Sink

structure Memory where
  publishes : List (List Message)
  current : List Message
  clears : Nat
  disposed : Bool

namespace Memory

def fresh : Memory := ⟨[], [], 0, false⟩

def receive (m : Memory) : Call → Memory
  | .publish messages =>
    { m with publishes := m.publishes ++ [messages], current := messages }
  | .clear => { m with current := [], clears := m.clears + 1 }
  | .dispose => { m with disposed := true }

end Memory

/-- A sink that passes calls on to a receiver, unless that has gone away. -/
structure Channel where
  closed : Bool
  /-- The calls that the receiver has not taken yet. -/
  waiting : List Call

namespace Channel

def fresh : Channel := ⟨false, []⟩

def receive (c : Channel) (call : Call) : Channel :=
  if c.closed then c else { c with waiting := c.waiting ++ [call] }

def drained (c : Channel) : Channel := { c with waiting := [] }

def close (_ : Channel) : Channel := ⟨true, []⟩

end Channel

end Sink

inductive Sink where
  | memory (sink : Sink.Memory)
  | channel (sink : Sink.Channel)

namespace Sink

def receive : Sink → Call → Sink
  | memory m, call => memory (m.receive call)
  | channel c, call => channel (c.receive call)

/-- The sinks of a list, which are named by their places in it, after calls to
some of them. -/
def receiveAll (sinks : List Sink) (calls : Deliveries Nat) : List Sink :=
  calls.foldl (fun sinks (place, call) => sinks.modify place (·.receive call)) sinks

end Sink

end DiagnosticFeed
