import DiagnosticFeed.Json.Sorted
import Mathlib.Data.List.Nodup

/-!
# Objects with their members in order

The members of a sorted object are those that it had, and they stand in the order
of their keys. Where no key is there twice there is only one such order, so any
list of the members with ascending keys is how they are sorted.
-/

namespace DiagnosticFeed.Json

/-- The text that a member is sorted by. -/
def keyText (m : Option String × Json) : String := m.1.getD ""

theorem sortedElements_eq_map (vs : List Json) : sortedElements vs = vs.map sorted := by
  induction vs with
  | nil => rfl
  | cons v vs ih => rw [sortedElements, ih, List.map_cons]

theorem sorted_array_map {α : Type} (value : α → Json) (l : List α) :
    (array (l.map value)).sorted = .array (l.map fun a => (value a).sorted) := by
  rw [sorted, sortedElements_eq_map, List.map_map]
  rfl

theorem placeMember_perm (k : Option String) (v : Json) (ms : List (Option String × Json)) :
    (placeMember k v ms).Perm ((k, v) :: ms) := by
  induction ms with
  | nil => exact .refl _
  | cons m rest ih =>
      unfold placeMember
      split
      · exact .refl _
      · exact (ih.cons m).trans (.swap _ _ rest)

theorem sortedMembers_perm (ms : List (Option String × Json)) :
    (sortedMembers ms).Perm (ms.map fun m => (m.1, m.2.sorted)) := by
  induction ms with
  | nil => exact .refl _
  | cons m rest ih => exact (placeMember_perm _ _ _).trans (ih.cons _)

theorem placeMember_pairwise (k : Option String) (v : Json) {ms : List (Option String × Json)}
    (ascends : ms.Pairwise fun a b => keyText a ≤ keyText b) :
    (placeMember k v ms).Pairwise fun a b => keyText a ≤ keyText b := by
  induction ms with
  | nil => exact List.pairwise_singleton _ _
  | cons m rest ih =>
      obtain ⟨first, others⟩ := List.pairwise_cons.1 ascends
      unfold placeMember
      split
      · rename_i less
        have le : keyText (k, v) ≤ keyText m := String.not_lt.1 (String.lt_asymm less)
        refine List.pairwise_cons.2 ⟨fun b mem => ?_, ascends⟩
        rcases List.mem_cons.1 mem with rfl | mem
        · exact le
        · exact String.le_trans le (first b mem)
      · rename_i notLess
        refine List.pairwise_cons.2 ⟨fun b mem => ?_, ih others⟩
        rcases List.mem_cons.1 ((placeMember_perm k v rest).mem_iff.1 mem) with rfl | mem
        · exact String.not_lt.1 notLess
        · exact first b mem

theorem sortedMembers_pairwise (ms : List (Option String × Json)) :
    (sortedMembers ms).Pairwise fun a b => keyText a ≤ keyText b := by
  induction ms with
  | nil => exact .nil
  | cons m rest ih => exact placeMember_pairwise _ _ ih

/-- Members are sorted into the one order in which their keys ascend. -/
theorem sortedMembers_eq_of_perm {ms l : List (Option String × Json)}
    (perm : (ms.map fun m => (m.1, m.2.sorted)).Perm l)
    (ascends : (l.map keyText).Pairwise (· < ·)) : sortedMembers ms = l := by
  have nodup : (l.map keyText).Nodup := by
    refine ascends.imp ?_
    rintro key _ less rfl
    exact String.lt_irrefl key less
  have weakly : l.Pairwise fun a b => keyText a ≤ keyText b :=
    (List.pairwise_map.1 ascends).imp fun less => String.not_lt.1 (String.lt_asymm less)
  have perm' := (sortedMembers_perm ms).trans perm
  refine perm'.eq_of_pairwise (fun a b ha hb ab ba => ?_) (sortedMembers_pairwise ms) weakly
  exact List.inj_on_of_nodup_map nodup (perm'.mem_iff.1 ha) hb (String.le_antisymm ab ba)

theorem sorted_record_of_perm {members : List (String × Json)} {l : List (Option String × Json)}
    (perm : (members.map fun m => (some m.1, m.2.sorted)).Perm l)
    (ascends : (l.map keyText).Pairwise (· < ·)) : (record members).sorted = .object l := by
  rw [record, sorted, sortedMembers_eq_of_perm (l := l) ?_ ascends]
  rwa [List.map_map]

section

variable {α : Type} (name : String) {value written : α → Json}

theorem map_sorted_knownMember (same : ∀ a, (value a).sorted = written a) (known : Option α) :
    (knownMember name value known).map (fun m => (some m.1, m.2.sorted)) =
      (known.map fun a => (some name, written a)).toList := by
  cases known with
  | none => rfl
  | some a =>
      rw [knownMember, List.map_singleton, same]
      rfl

theorem keyText_known_sublist (known : Option α) :
    ((known.map fun a => (some name, written a)).toList.map keyText).Sublist [name] := by
  cases known with
  | none => exact List.nil_sublist _
  | some a => exact .refl _

end

end DiagnosticFeed.Json
