/-!
# Lists without repetition

`distinct` keeps the first occurrence of each element.  If the elements are values
of an ascending list, then they come in the order of the first elements of that
list that have them (`distinct_map_pairwise`).
-/

namespace DiagnosticFeed

variable {α : Type} [DecidableEq α]

/-- The elements in the order of their first occurrences, each of them once. -/
def distinct : List α → List α
  | [] => []
  | a :: rest => a :: (distinct rest).filter (· ≠ a)

@[simp]
theorem mem_distinct {a : α} {l : List α} : a ∈ distinct l ↔ a ∈ l := by
  induction l with
  | nil => simp [distinct]
  | cons b rest ih =>
    by_cases h : a = b <;> simp [distinct, h, ih]

theorem nodup_distinct (l : List α) : (distinct l).Nodup := by
  induction l with
  | nil => simp [distinct]
  | cons b rest ih =>
    simp only [distinct, List.nodup_cons]
    exact ⟨by simp, ih.filter _⟩

theorem distinct_sublist (l : List α) : (distinct l).Sublist l := by
  induction l with
  | nil => exact .slnil
  | cons a rest ih => exact (List.filter_sublist.trans ih).cons_cons a

/-- Elements are in the order of the positions where they occur first. -/
theorem distinct_pairwise_idxOf (l : List α) :
    (distinct l).Pairwise fun a b => l.idxOf a < l.idxOf b := by
  induction l with
  | nil => exact .nil
  | cons head rest ih =>
    have later : ∀ a, a ∈ (distinct rest).filter (· ≠ head) →
        (head :: rest).idxOf a = rest.idxOf a + 1 := by
      intro a mem
      have ne : a ≠ head := by simpa using (List.mem_filter.1 mem).2
      rw [List.idxOf_cons, beq_false_of_ne ne.symm, cond_false]
    refine List.pairwise_cons.2 ⟨fun a mem => ?_, ?_⟩
    · rw [later a mem, List.idxOf_cons_self]
      exact Nat.succ_pos _
    · refine (ih.filter _).imp_of_mem fun {a b} ha hb less => ?_
      rw [later a ha, later b hb]
      exact Nat.succ_lt_succ less

/-! ## Values in an ascending list -/

section

variable {β : Type} {before : β → β → Prop} {value : β → α} {l : List β}

/-- Of the elements with a value, one comes before all others. -/
def Leads (before : β → β → Prop) (value : β → α) (l : List β) (x : β) (a : α) : Prop :=
  x ∈ l ∧ value x = a ∧ ∀ y ∈ l, value y = a → y = x ∨ before x y

omit [DecidableEq α] in
theorem leads_head {head : β} {rest : List β} (ascends : (head :: rest).Pairwise before) :
    Leads before value (head :: rest) head (value head) := by
  refine ⟨List.mem_cons_self, rfl, fun y mem _ => ?_⟩
  exact (List.mem_cons.1 mem).imp_right ((List.pairwise_cons.1 ascends).1 y)

omit [DecidableEq α] in
theorem Leads.cons {x head : β} {a : α} (h : Leads before value l x a) (ne : a ≠ value head) :
    Leads before value (head :: l) x a := by
  obtain ⟨mem, rfl, first⟩ := h
  refine ⟨List.mem_cons_of_mem head mem, rfl, fun y hy same => ?_⟩
  rcases List.mem_cons.1 hy with rfl | hy
  · exact absurd same.symm ne
  · exact first y hy same

theorem exists_leads (ascends : l.Pairwise before) {a : α} (mem : a ∈ l.map value) :
    ∃ x, Leads before value l x a := by
  induction l with
  | nil => cases mem
  | cons head rest ih =>
    by_cases here : a = value head
    · exact ⟨head, here ▸ leads_head ascends⟩
    · rw [List.map_cons, List.mem_cons] at mem
      obtain ⟨x, leads⟩ := ih (List.pairwise_cons.1 ascends).2 (mem.resolve_left here)
      exact ⟨x, leads.cons here⟩

/-- The values in an ascending list are in the order of the elements that lead
them. -/
theorem distinct_map_pairwise (ascends : l.Pairwise before) :
    (distinct (l.map value)).Pairwise fun a b =>
      ∃ x y, Leads before value l x a ∧ Leads before value l y b ∧ before x y := by
  induction l with
  | nil => exact .nil
  | cons head rest ih =>
    obtain ⟨below, tail⟩ := List.pairwise_cons.1 ascends
    have other : ∀ a, a ∈ (distinct (rest.map value)).filter (· ≠ value head) →
        a ∈ rest.map value ∧ a ≠ value head := by
      intro a mem
      obtain ⟨inRest, ne⟩ := List.mem_filter.1 mem
      exact ⟨mem_distinct.1 inRest, by simpa using ne⟩
    refine List.pairwise_cons.2 ⟨fun b mem => ?_, ?_⟩
    · obtain ⟨inRest, ne⟩ := other b mem
      obtain ⟨y, leads⟩ := exists_leads tail inRest
      exact ⟨head, y, leads_head ascends, leads.cons ne, below y leads.1⟩
    · refine ((ih tail).filter _).imp_of_mem fun {a b} ha hb => ?_
      rintro ⟨x, y, hx, hy, less⟩
      exact ⟨x, y, hx.cons (other a ha).2, hy.cons (other b hb).2, less⟩

end

end DiagnosticFeed
