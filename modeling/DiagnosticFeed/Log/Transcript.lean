import DiagnosticFeed.Feed
import DiagnosticFeed.Log.Event

/-!
# Transcripts

A log is played into a feed of its own with one sink attached to it.  The
transcript has, in order, what the sink was told to publish and the answers to
the questions in the log.

What the sink was told is looked at after each wait and each question, and at
the end of the log, where the feed is flushed so that its final state always
appears.  A line that holds no event stops the log at once.
-/

namespace DiagnosticFeed.Log

inductive Entry where
  /-- The publication with some number, counted from one. -/
  | publication (number : Nat) (messages : List Message)
  | found (file : String) (issues : List Diagnostic)
  | triggered (trigger : String) (files : List FileKey)
deriving DecidableEq

structure Transcript where
  entries : List Entry
  events : Nat
  publications : Nat
  /-- The number of the line that has stopped the log, if one has. -/
  stoppedAt : Option Nat

structure Player where
  feed : Feed Unit
  /-- What the sink was told and has not been looked at. -/
  waiting : List Sink.Call
  entries : List Entry
  events : Nat
  publications : Nat

namespace Player

/-- A player in front of a log: the sink has just been attached. -/
def start (settings : Settings) (delay : Nat) : Player where
  feed := (Feed.withSettings settings delay).attach ()
  waiting := []
  entries := []
  events := 0
  publications := 0

def operate (p : Player) (op : Feed.Op Unit) : Player :=
  let outcome := p.feed.step op
  { p with feed := outcome.feed, waiting := p.waiting ++ outcome.calls.map (·.2) }

def note (p : Player) : Sink.Call → Player
  | .publish messages =>
    { p with
      entries := p.entries ++ [.publication (p.publications + 1) messages]
      publications := p.publications + 1 }
  | .clear => p
  | .dispose => p

def drain (p : Player) : Player := p.waiting.foldl note { p with waiting := [] }

def answer (p : Player) (entry : Entry) : Player :=
  { p with entries := p.entries ++ [entry] }

/-- The issues that a query asks for.  A point goes before a span, and without
either the span is the whole file. -/
def find (store : Store) (file : String) (point : Option Point) (asked : Option Span) :
    List Diagnostic :=
  match point, asked with
  | some p, _ => store.issuesAt file p
  | none, some span => store.issuesIn file span
  | none, none => store.issuesIn file Span.wholeFile

def play (p : Player) (e : Event) : Player :=
  let p := { p with events := p.events + 1 }
  match e with
  | .report tag file batch => p.operate (.mutate (.report tag file batch))
  | .clear selection => p.operate (.mutate (.clear selection))
  | .wait ms => (p.operate (.advance ms.toNat)).drain
  | .query file point asked =>
    p.drain.answer (.found file (find p.feed.store file point asked))
  | .triggered trigger =>
    p.drain.answer (.triggered trigger (p.feed.store.triggeredBy trigger))

def finish (p : Player) : Player :=
  ((p.operate .flush).drain.operate .dispose).drain

def transcript (p : Player) (stoppedAt : Option Nat) : Transcript :=
  ⟨p.entries, p.events, p.publications, stoppedAt⟩

/-- Play the lines of a log, the first of which has some number. -/
def playLines (p : Player) (number : Nat) : List Line → Transcript
  | [] => p.finish.transcript none
  | .skipped :: rest => p.playLines (number + 1) rest
  | .event e :: rest => (p.play e).playLines (number + 1) rest
  | .invalid :: _ => p.transcript (some number)

end Player

def Transcript.ofLog (settings : Settings) (delay : Nat) (log : String) : Transcript :=
  (Player.start settings delay).playLines 1 (lines log)

end DiagnosticFeed.Log
