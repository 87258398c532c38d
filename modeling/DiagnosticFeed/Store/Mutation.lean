import DiagnosticFeed.Store

/-!
# Mutations

A mutation is a change of the store as data, so that a history of the store is
a list.
-/

namespace DiagnosticFeed

inductive Mutation where
  | report (tag : Tag) (file : String) (batch : Batch)
  | clear (selection : Selection)
deriving DecidableEq

def Mutation.isVoid : Mutation → Bool
  | report .. => false
  | clear selection => selection.isEmpty

namespace Store

def apply (s : Store) : Mutation → Store
  | .report tag file batch => s.report tag file batch
  | .clear selection => s.clear selection

theorem apply_of_isVoid (s : Store) {m : Mutation} (h : m.isVoid = true) : s.apply m = s := by
  cases m with
  | report tag file batch => cases h
  | clear selection => exact if_pos h

def ofHistory (history : List Mutation) : Store := history.foldl apply empty

@[simp]
theorem ofHistory_nil : ofHistory [] = empty := rfl

theorem ofHistory_append (history : List Mutation) (m : Mutation) :
    ofHistory (history ++ [m]) = (ofHistory history).apply m := by
  simp [ofHistory]

end Store

end DiagnosticFeed
