import DiagnosticFeed.Proofs.Feed.Run

/-!
# Looking at a feed

Queries see the mutations and nothing else. Whatever has been done to a feed, it
answers them as a store does that has had the same mutations: settings, sinks and
time have no part in the answers. And to look at a feed, by a query or for a
snapshot, leaves no trace: of all that comes out of a run, a look has its own
answer only (`eraseIdx_outcomes`).
-/

namespace DiagnosticFeed

namespace Feed

variable {σ τ : Type}

/-- The feeds that can be made, before anything is done to them. -/
inductive Made : Feed σ → Prop where
  | plain : Made plain
  | started {clock : Option Nat} {settings : Settings} {delay : Nat} {f : Feed σ}
      (start : start? clock settings delay = .ok f) : Made f

theorem Made.store_eq {f : Feed σ} (h : f.Made) : f.store = .empty := by
  cases h with
  | plain => rfl
  | @started clock settings delay _ start =>
      cases clock with
      | none => cases start
      | some now => exact congrArg Feed.store (Except.ok.inj start).symm

/-- A feed answers queries, and counts, as a store does. -/
structure AnswersLike (f : Feed σ) (s : Store) : Prop where
  issuesAt : ∀ file p, (f.step (.issuesAt file p)).answer = .issues (s.issuesAt file p)
  issuesIn : ∀ file asked, (f.step (.issuesIn file asked)).answer = .issues (s.issuesIn file asked)
  triggeredBy : ∀ trigger, (f.step (.triggeredBy trigger)).answer = .files (s.triggeredBy trigger)
  fileCount : f.fileCount = s.fileCount
  issueCount : f.issueCount = s.issueCount

theorem answersLike_store (f : Feed σ) : f.AnswersLike f.store where
  issuesAt _ _ := rfl
  issuesIn _ _ := rfl
  triggeredBy _ := rfl
  fileCount := rfl
  issueCount := rfl

theorem Made.store_run {f : Feed σ} (h : f.Made) (ops : List (Op σ)) :
    (f.run ops).1.store = .ofHistory (ops.filterMap Op.mutation?) := by
  rw [Feed.store_run, h.store_eq]
  rfl

/-! ## What comes out of a run -/

def outcomes (f : Feed σ) : List (Op σ) → List (Outcome σ)
  | [] => []
  | op :: rest => f.step op :: (f.step op).feed.outcomes rest

theorem outcomes_append (f : Feed σ) (first second : List (Op σ)) :
    f.outcomes (first ++ second) = f.outcomes first ++ (f.run first).1.outcomes second := by
  induction first generalizing f with
  | nil => rfl
  | cons op rest ih => rw [List.cons_append, outcomes, ih, run_cons, outcomes, List.cons_append]

theorem length_outcomes (f : Feed σ) (ops : List (Op σ)) :
    (f.outcomes ops).length = ops.length := by
  induction ops generalizing f with
  | nil => rfl
  | cons op rest ih => rw [outcomes, List.length_cons, ih, List.length_cons]

def Op.looks : Op σ → Bool
  | snapshot | triggeredBy _ | issuesAt _ _ | issuesIn _ _ => true
  | _ => false

theorem feed_step_of_looks (f : Feed σ) {op : Op σ} (h : op.looks = true) :
    (f.step op).feed = f := by
  cases op with
  | mutate | attach | clearSink | dispose | configure | flush | advance => cases h
  | snapshot | triggeredBy | issuesAt | issuesIn => rfl

/-- What comes out of a run with a look in it is, but for what comes out of the
look, what comes out of the run without it. -/
theorem eraseIdx_outcomes (f : Feed σ) (before : List (Op σ)) {op : Op σ} (h : op.looks = true)
    (later : List (Op σ)) :
    (f.outcomes (before ++ op :: later)).eraseIdx before.length = f.outcomes (before ++ later) := by
  have length := length_outcomes f before
  rw [outcomes_append, outcomes, feed_step_of_looks _ h, outcomes_append,
    List.eraseIdx_append_of_length_le (Nat.le_of_eq length), length, Nat.sub_self, List.eraseIdx_cons_zero]

/-- Two feeds with the same mutations answer queries alike, namely as a store
does that has had these mutations, whatever else has been done to either of them.
A look changes nothing of what comes out of a run before it or after it: neither
the feed, nor an answer, nor a call to a sink. -/
theorem answersLike_run {f : Feed σ} {g : Feed τ} (hf : f.Made) (hg : g.Made)
    {ops : List (Op σ)} {ops' : List (Op τ)}
    (same : ops.filterMap Op.mutation? = ops'.filterMap Op.mutation?) :
    (f.run ops).1.AnswersLike (.ofHistory (ops.filterMap Op.mutation?)) ∧
      (g.run ops').1.AnswersLike (.ofHistory (ops.filterMap Op.mutation?)) ∧
        ∀ (k : Feed σ) (before : List (Op σ)) (op : Op σ) (later : List (Op σ)),
          op.looks = true →
            (k.outcomes (before ++ op :: later)).eraseIdx before.length =
              k.outcomes (before ++ later) := by
  refine ⟨?_, ?_, fun k before op later looks => k.eraseIdx_outcomes before looks later⟩
  · rw [← hf.store_run]
    exact answersLike_store _
  · rw [same, ← hg.store_run]
    exact answersLike_store _

/-- A report that is published to a sink, with a look at it and a clearing that
asks for nothing. -/
def shown : List (Op Nat) :=
  [.attach 0, .mutate (.report .semantic "/p/a.ts" ⟨none, [⟨.error, .number 1005, "expected a brace",
      some ⟨2, 1⟩, some ⟨2, 2⟩, false, none⟩]⟩), .advance 200, .issuesAt "/p/a.ts" ⟨1, 0⟩, .snapshot,
    .mutate (.clear ⟨none, none⟩)]

/-- The same mutations with the code ignored and the sink released. -/
def hidden : List (Op Nat) :=
  [.mutate (.report .semantic "/p/a.ts" ⟨none, [⟨.error, .number 1005, "expected a brace",
      some ⟨2, 1⟩, some ⟨2, 2⟩, false, none⟩]⟩), .configure (.ignoreCode "1005"), .attach 3,
    .flush, .dispose, .mutate (.clear ⟨none, none⟩), .advance 7]

theorem answersLike_run_hidden :
    shown.filterMap Op.mutation? = hidden.filterMap Op.mutation? ∧
      ((plain.run shown).1.AnswersLike (.ofHistory (shown.filterMap Op.mutation?)) ∧
        ((withSettings .standard 5).run hidden).1.AnswersLike
          (.ofHistory (shown.filterMap Op.mutation?))) ∧
        ((plain.run shown).1.messages.length = 1 ∧
          ((withSettings .standard 5).run hidden).1.messages = []) := by
  have same : shown.filterMap Op.mutation? = hidden.filterMap Op.mutation? := rfl
  have start : start? (some 0) .standard 5 = .ok (withSettings .standard 5 : Feed Nat) := rfl
  obtain ⟨alike, alike', -⟩ := answersLike_run .plain (.started start) same
  exact ⟨same, ⟨alike, alike'⟩, by decide +kernel, by decide +kernel⟩

end Feed

end DiagnosticFeed
