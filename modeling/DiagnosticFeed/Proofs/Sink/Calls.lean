import DiagnosticFeed.Sink

/-!
# The calls that reach one sink

Of the calls that go to sinks, a sink sees only those that name it
(`Sink.callsTo`). A sink that keeps what it was told holds the messages of the
last publication, as long as it has not been cleared since.
-/

namespace DiagnosticFeed

namespace Sink

def Call.published? : Call → Option (List Message)
  | publish messages => some messages
  | _ => none

/-- The sets of messages that calls publish, to whatever sinks. -/
def publications {σ : Type} (calls : Deliveries σ) : List (List Message) :=
  calls.filterMap fun call => call.2.published?

theorem publications_append {σ : Type} (first second : Deliveries σ) :
    publications (first ++ second) = publications first ++ publications second :=
  List.filterMap_append

theorem filterMap_published?_map_snd {σ : Type} (calls : Deliveries σ) :
    (calls.map (·.2)).filterMap Call.published? = publications calls :=
  List.filterMap_map

def callsTo {σ : Type} [DecidableEq σ] (sink : σ) (calls : Deliveries σ) : List Call :=
  calls.filterMap fun call => if call.1 = sink then some call.2 else none

theorem callsTo_append {σ : Type} [DecidableEq σ] (sink : σ) (first second : Deliveries σ) :
    callsTo sink (first ++ second) = callsTo sink first ++ callsTo sink second :=
  List.filterMap_append

theorem callsTo_map_mk {σ : Type} [DecidableEq σ] (sink other : σ) (calls : List Call) :
    callsTo sink (calls.map fun call => (other, call)) = if other = sink then calls else [] := by
  induction calls with
  | nil => exact (ite_self _).symm
  | cons call rest ih =>
      rw [List.map_cons, ← List.singleton_append, callsTo_append, ih]
      split <;> simp [callsTo, *]

theorem getElem?_receiveAll (sinks : List Sink) (calls : Deliveries Nat) (place : Nat) :
    (receiveAll sinks calls)[place]? =
      sinks[place]?.map fun sink => (callsTo place calls).foldl receive sink := by
  induction calls generalizing sinks with
  | nil => simp [receiveAll, callsTo]
  | cons call rest ih =>
      have unfolded : receiveAll sinks (call :: rest) =
          receiveAll (sinks.modify call.1 (·.receive call.2)) rest := rfl
      rw [unfolded, ih, List.getElem?_modify]
      by_cases h : call.1 = place
      · simp [callsTo, h, Function.comp_def]
      · simp [callsTo, h]

theorem foldl_receive_memory (calls : List Call) (m : Memory) :
    calls.foldl receive (memory m) = memory (calls.foldl Memory.receive m) := by
  induction calls generalizing m with
  | nil => rfl
  | cons call rest ih => exact ih (m.receive call)

/-- The last call decides what a sink holds if it is a publication. -/
theorem current_receive_publish (calls : List Call) (messages : List Message) (m : Memory) :
    ((calls ++ [Call.publish messages]).foldl Memory.receive m).current = messages := by
  rw [List.foldl_append]
  rfl

end Sink

end DiagnosticFeed
