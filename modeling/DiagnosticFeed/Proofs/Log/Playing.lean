import DiagnosticFeed.Log.Transcript
import DiagnosticFeed.Proofs.Feed.Run

/-!
# Playing a log is a run of its feed

The player of a log does the operations that the events ask for (`Event.ops`)
and no others, and what it shows of the sink is what the sink was told
(`Player.Follows`). The publications that it shows are numbered from one.
-/

namespace DiagnosticFeed

namespace Log

open Feed (Op)

namespace Event

def ops : Event → List (Op Unit)
  | report tag file batch => [.mutate (.report tag file batch)]
  | clear selection => [.mutate (.clear selection)]
  | wait ms => [.advance ms.toNat]
  | query .. => []
  | triggered _ => []

theorem filterMap_mutation?_ops (e : Event) :
    e.ops.filterMap Op.mutation? = e.mutation?.toList := by
  cases e <;> rfl

theorem not_rewires_of_mem_ops {e : Event} {op : Op Unit} (h : op ∈ e.ops) :
    op.rewires = false := by
  cases e <;> simp [ops] at h <;> subst h <;> rfl

theorem not_configures_of_mem_ops {e : Event} {op : Op Unit} (h : op ∈ e.ops) :
    op.configures = false := by
  cases e <;> simp [ops] at h <;> subst h <;> rfl

end Event

namespace Line

def event? : Line → Option Event
  | event e => some e
  | _ => none

end Line

def events (lines : List Line) : List Event := lines.filterMap Line.event?

def mutations (lines : List Line) : List Mutation := (events lines).filterMap Event.mutation?

theorem filterMap_mutation?_flatMap_ops (events : List Event) :
    (events.flatMap Event.ops).filterMap Op.mutation? = events.filterMap Event.mutation? := by
  induction events with
  | nil => rfl
  | cons e rest ih =>
      rw [List.flatMap_cons, List.filterMap_append, ih, Event.filterMap_mutation?_ops]
      cases found : e.mutation? <;> simp [found]

theorem not_rewires_of_mem_flatMap_ops {events : List Event} {op : Op Unit}
    (h : op ∈ events.flatMap Event.ops) : op.rewires = false := by
  obtain ⟨e, _, mem⟩ := List.mem_flatMap.1 h
  exact Event.not_rewires_of_mem_ops mem

theorem not_configures_of_mem_flatMap_ops {events : List Event} {op : Op Unit}
    (h : op ∈ events.flatMap Event.ops) : op.configures = false := by
  obtain ⟨e, _, mem⟩ := List.mem_flatMap.1 h
  exact Event.not_configures_of_mem_ops mem

namespace Entry

def messages? : Entry → Option (List Message)
  | publication _ messages => some messages
  | _ => none

def numbered? : Entry → Option (List Message × Nat)
  | publication number messages => some (messages, number)
  | _ => none

end Entry

namespace Player

/-- The player has done some operations to a feed. What its sink was told is
partly shown and partly waits to be looked at. -/
structure Follows (p : Player) (f : Feed Unit) (ops : List (Op Unit)) : Prop where
  feed : p.feed = (f.run ops).1
  told : p.entries.filterMap Entry.messages? ++ p.waiting.filterMap Sink.Call.published? =
    Sink.publications (f.run ops).2
  numbered : p.entries.filterMap Entry.numbered? =
    (p.entries.filterMap Entry.messages?).zipIdx 1
  count : p.publications = (p.entries.filterMap Entry.messages?).length

variable {p : Player} {f : Feed Unit} {ops : List (Op Unit)}

theorem follows_start (settings : Settings) (delay : Nat) :
    (start settings delay).Follows (.withSettings settings delay) [.attach ()] :=
  ⟨rfl, rfl, rfl, rfl⟩

namespace Follows

theorem operate (h : p.Follows f ops) (op : Op Unit) :
    (p.operate op).Follows f (ops ++ [op]) where
  feed := by rw [Feed.run_concat, ← h.feed]; rfl
  told := by
    rw [Feed.run_concat, Sink.publications_append, ← h.told, ← h.feed, List.append_assoc,
      ← Sink.filterMap_published?_map_snd, ← List.filterMap_append]
    rfl
  numbered := h.numbered
  count := h.count

theorem note {call : Sink.Call} {rest : List Sink.Call}
    (h : Follows { p with waiting := call :: rest } f ops) :
    Follows { p.note call with waiting := rest } f ops := by
  cases call with
  | publish messages =>
      refine ⟨h.feed, ?_, ?_, ?_⟩
      · rw [← h.told]
        simp [Player.note, Entry.messages?, Sink.Call.published?]
      · have numbered := h.numbered
        have count := h.count
        simp only at numbered count
        simp [Player.note, Entry.messages?, Entry.numbered?, List.zipIdx_append, numbered,
          count, Nat.add_comm]
      · have count := h.count
        simp only at count
        simp [Player.note, Entry.messages?, count]
  | clear => exact ⟨h.feed, h.told, h.numbered, h.count⟩
  | dispose => exact ⟨h.feed, h.told, h.numbered, h.count⟩

theorem foldl_note {calls : List Sink.Call} (h : Follows { p with waiting := calls } f ops) :
    Follows (calls.foldl Player.note { p with waiting := [] }) f ops := by
  induction calls generalizing p with
  | nil => exact h
  | cons call rest ih =>
      have next := ih h.note
      cases call <;> exact next

theorem drain (h : p.Follows f ops) : p.drain.Follows f ops := foldl_note h

theorem answer (h : p.Follows f ops) {entry : Entry} (other : entry.numbered? = none) :
    (p.answer entry).Follows f ops := by
  have noMessages : entry.messages? = none := by
    cases entry with
    | publication number messages => cases other
    | _ => rfl
  refine ⟨h.feed, ?_, ?_, ?_⟩
  · simpa [Player.answer, noMessages] using h.told
  · simpa [Player.answer, noMessages, other] using h.numbered
  · simpa [Player.answer, noMessages] using h.count

theorem play (h : p.Follows f ops) (e : Event) : (p.play e).Follows f (ops ++ e.ops) := by
  have counted : Follows { p with events := p.events + 1 } f ops := ⟨h.feed, h.told, h.numbered, h.count⟩
  cases e with
  | report tag file batch => exact counted.operate _
  | clear selection => exact counted.operate _
  | wait ms => exact (counted.operate _).drain
  | query file point asked =>
      rw [Event.ops, List.append_nil]
      exact counted.drain.answer rfl
  | triggered trigger =>
      rw [Event.ops, List.append_nil]
      exact counted.drain.answer rfl

theorem finish (h : p.Follows f ops) : p.finish.Follows f (ops ++ [.flush] ++ [.dispose]) :=
  ((h.operate .flush).drain.operate .dispose).drain

end Follows

/-- Nothing waits to be looked at once the sink has been drained. -/
theorem waiting_drain (p : Player) : p.drain.waiting = [] := by
  have kept : ∀ (calls : List Sink.Call) (q : Player),
      (calls.foldl note q).waiting = q.waiting := by
    intro calls
    induction calls with
    | nil => exact fun q => rfl
    | cons call rest ih =>
        intro q
        rw [List.foldl_cons, ih]
        cases call <;> rfl
  exact kept p.waiting _

/-- Lines of which none is invalid are played, and then the lines behind them. -/
theorem playLines_append (p : Player) (number : Nat) {front : List Line}
    (valid : .invalid ∉ front) (rest : List Line) :
    p.playLines number (front ++ rest) =
      ((Log.events front).foldl play p).playLines (number + front.length) rest := by
  induction front generalizing p number with
  | nil => rfl
  | cons line front ih =>
      rw [List.mem_cons, not_or] at valid
      have count : number + (front.length + 1) = number + 1 + front.length := by omega
      rw [List.cons_append, List.length_cons, count]
      cases line with
      | skipped => exact ih p (number + 1) valid.2
      | event e => exact ih (p.play e) (number + 1) valid.2
      | invalid => exact absurd rfl valid.1

/-- A log without invalid lines is played to its end. -/
theorem playLines_of_valid (p : Player) (number : Nat) {lines : List Line}
    (valid : .invalid ∉ lines) :
    p.playLines number lines =
      ((Log.events lines).foldl play p).finish.transcript none := by
  have played := playLines_append p number valid []
  rwa [List.append_nil] at played

/-- An invalid line stops a log with what the lines in front of it have
shown. -/
theorem playLines_of_invalid (p : Player) (number : Nat) {lines : List Line} {n : Nat}
    (bad : lines[n]? = some .invalid) (good : .invalid ∉ lines.take n) :
    p.playLines number lines =
      ((Log.events (lines.take n)).foldl play p).transcript (some (number + n)) := by
  obtain ⟨inside, eq⟩ := List.getElem?_eq_some_iff.1 bad
  have split : lines = lines.take n ++ .invalid :: lines.drop (n + 1) := by
    rw [← eq, List.getElem_cons_drop inside, List.take_append_drop]
  have played := playLines_append p number good (.invalid :: lines.drop (n + 1))
  rw [← split, List.length_take_of_le (Nat.le_of_lt inside)] at played
  exact played

end Player

end Log

end DiagnosticFeed
