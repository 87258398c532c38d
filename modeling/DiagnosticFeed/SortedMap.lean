/-!
# Maps sorted by the text of their keys

A `SortedMap` is a finite map whose entries are listed in strictly ascending
order of the keys' text.  Two maps with the same look-ups are equal
(`SortedMap.ext_get?`), so a map is determined by what it holds and not by the
order in which it was filled.
-/

namespace DiagnosticFeed

/-- A key is determined by its text, and keys are ordered by it. -/
class TextKey (κ : Type) where
  text : κ → String
  eq_of_text : ∀ {a b : κ}, text a = text b → a = b

instance : TextKey String := ⟨id, id⟩

namespace TextKey

variable {κ : Type} [TextKey κ]

theorem text_inj {a b : κ} : text a = text b ↔ a = b :=
  ⟨eq_of_text, fun h => h ▸ rfl⟩

def same (a b : κ) : Bool := text a = text b

@[simp]
theorem same_iff {a b : κ} : same a b = true ↔ a = b := by
  simp [same, text_inj]

end TextKey

/-- A finite map listed by ascending text of its keys. -/
structure SortedMap (κ α : Type) [TextKey κ] where
  entries : List (κ × α)
  sorted : entries.Pairwise fun a b => TextKey.text a.1 < TextKey.text b.1

namespace SortedMap

variable {κ α β : Type} [TextKey κ]

@[ext]
theorem ext {m n : SortedMap κ α} (h : m.entries = n.entries) : m = n := by
  cases m; cases n; cases h; rfl

instance [DecidableEq κ] [DecidableEq α] : DecidableEq (SortedMap κ α) :=
  fun _ _ => decidable_of_iff _ SortedMap.ext_iff.symm

def empty : SortedMap κ α := ⟨[], .nil⟩

/-- The first value listed under a key. -/
def valueAt (k : κ) : List (κ × α) → Option α
  | [] => none
  | (k', v) :: rest => if TextKey.same k' k then some v else valueAt k rest

/-- Put a value at its place in an ascending list, in place of the value that
its key had. -/
def place (k : κ) (v : α) : List (κ × α) → List (κ × α)
  | [] => [(k, v)]
  | (k', v') :: rest =>
    if TextKey.text k < TextKey.text k' then (k, v) :: (k', v') :: rest
    else if TextKey.same k' k then (k, v) :: rest
    else (k', v') :: place k v rest

theorem mem_place {k : κ} {v : α} {e : κ × α} {l : List (κ × α)}
    (h : e ∈ place k v l) : e = (k, v) ∨ e ∈ l := by
  induction l with
  | nil => simpa [place] using h
  | cons head rest ih =>
    obtain ⟨k', v'⟩ := head
    unfold place at h
    split at h
    · simpa using h
    · split at h
      · simp only [List.mem_cons] at h ⊢
        exact h.imp_right Or.inr
      · simp only [List.mem_cons] at h ⊢
        rcases h with h | h
        · exact Or.inr (Or.inl h)
        · exact (ih h).imp_right Or.inr

theorem sorted_place (k : κ) (v : α) {l : List (κ × α)}
    (h : l.Pairwise fun a b => TextKey.text a.1 < TextKey.text b.1) :
    (place k v l).Pairwise fun a b => TextKey.text a.1 < TextKey.text b.1 := by
  induction l with
  | nil => simp [place]
  | cons head rest ih =>
    obtain ⟨k', v'⟩ := head
    obtain ⟨below, tail⟩ := List.pairwise_cons.1 h
    unfold place
    split
    · rename_i lt
      refine List.pairwise_cons.2 ⟨fun e he => ?_, h⟩
      rcases List.mem_cons.1 he with rfl | he
      · exact lt
      · exact String.lt_trans lt (below e he)
    · rename_i notLt
      split
      · rename_i eq
        rw [TextKey.same_iff] at eq
        subst eq
        exact List.pairwise_cons.2 ⟨below, tail⟩
      · rename_i ne
        refine List.pairwise_cons.2 ⟨fun e he => ?_, ih tail⟩
        rcases mem_place he with rfl | he
        · refine Decidable.byContradiction fun notGt => ne (TextKey.same_iff.2 ?_)
          exact TextKey.eq_of_text
            (String.le_antisymm (String.not_lt.1 notLt) (String.not_lt.1 notGt))
        · exact below e he

def insert (m : SortedMap κ α) (k : κ) (v : α) : SortedMap κ α :=
  ⟨place k v m.entries, sorted_place k v m.sorted⟩

def get? (m : SortedMap κ α) (k : κ) : Option α := valueAt k m.entries

/-- The map with a new value for each entry, less the entries that get none. -/
def filterMap (m : SortedMap κ α) (f : κ → α → Option β) : SortedMap κ β where
  entries := m.entries.filterMap fun e => (f e.1 e.2).map fun v => (e.1, v)
  sorted := by
    refine List.Pairwise.filterMap _ (fun a b h a' ha b' hb => ?_) m.sorted
    obtain ⟨_, _, rfl⟩ := Option.map_eq_some_iff.1 ha
    obtain ⟨_, _, rfl⟩ := Option.map_eq_some_iff.1 hb
    exact h

def filter (m : SortedMap κ α) (keep : κ → α → Bool) : SortedMap κ α where
  entries := m.entries.filter fun e => keep e.1 e.2
  sorted := m.sorted.filter _

def ofList (l : List (κ × α)) : SortedMap κ α :=
  l.foldl (fun m e => m.insert e.1 e.2) empty

def keys (m : SortedMap κ α) : List κ := m.entries.map (·.1)

def values (m : SortedMap κ α) : List α := m.entries.map (·.2)

def size (m : SortedMap κ α) : Nat := m.entries.length

def total (m : SortedMap κ α) (number : α → Nat) : Nat :=
  m.values.foldr (fun v n => number v + n) 0

def isEmpty (m : SortedMap κ α) : Bool := m.entries.isEmpty

theorem valueAt_place_self (k : κ) (v : α) (l : List (κ × α)) :
    valueAt k (place k v l) = some v := by
  induction l with
  | nil => simp [place, valueAt]
  | cons head rest ih =>
    obtain ⟨k', v'⟩ := head
    unfold place
    split
    · simp [valueAt]
    · split
      · simp [valueAt]
      · rename_i ne
        simpa [valueAt, ne] using ih

theorem valueAt_place_ne {k k' : κ} (h : k' ≠ k) (v : α) (l : List (κ × α)) :
    valueAt k' (place k v l) = valueAt k' l := by
  have hk : TextKey.same k k' = false := by
    simpa [Bool.eq_false_iff] using Ne.symm h
  induction l with
  | nil => simp [place, valueAt, hk]
  | cons head rest ih =>
    obtain ⟨k'', v''⟩ := head
    unfold place
    split
    · simp [valueAt, hk]
    · split
      · rename_i eq
        rw [TextKey.same_iff] at eq
        subst eq
        simp [valueAt, hk]
      · simp [valueAt, ih]

@[simp]
theorem get?_insert_self (m : SortedMap κ α) (k : κ) (v : α) :
    (m.insert k v).get? k = some v := valueAt_place_self k v m.entries

theorem get?_insert_of_ne (m : SortedMap κ α) {k k' : κ} (h : k' ≠ k) (v : α) :
    (m.insert k v).get? k' = m.get? k' := valueAt_place_ne h v m.entries

theorem valueAt_eq_none {k : κ} {l : List (κ × α)}
    (h : ∀ e ∈ l, TextKey.text k < TextKey.text e.1) : valueAt k l = none := by
  induction l with
  | nil => rfl
  | cons head rest ih =>
    have ne : TextKey.same head.1 k = false := by
      rw [Bool.eq_false_iff, Ne, TextKey.same_iff]
      intro eq
      have lt := h head List.mem_cons_self
      rw [eq] at lt
      exact String.lt_irrefl _ lt
    simpa [valueAt, ne] using ih fun e he => h e (List.mem_cons_of_mem _ he)

theorem valueAt_eq_some_iff {k : κ} {v : α} {l : List (κ × α)}
    (h : l.Pairwise fun a b => TextKey.text a.1 < TextKey.text b.1) :
    valueAt k l = some v ↔ (k, v) ∈ l := by
  induction l with
  | nil => simp [valueAt]
  | cons head rest ih =>
      obtain ⟨k', v'⟩ := head
      obtain ⟨below, tail⟩ := List.pairwise_cons.1 h
      by_cases same : k' = k
      · subst same
        have absent : (k', v) ∉ rest := fun mem => String.lt_irrefl _ (below (k', v) mem)
        have found : valueAt k' ((k', v') :: rest) = some v' := if_pos (TextKey.same_iff.2 rfl)
        rw [found, Option.some_inj, List.mem_cons, Prod.mk.injEq]
        constructor
        · intro eq
          exact Or.inl ⟨rfl, eq.symm⟩
        · rintro (⟨-, eq⟩ | mem)
          · exact eq.symm
          · exact absurd mem absent
      · have ne : TextKey.same k' k = false := by
          rw [Bool.eq_false_iff, Ne, TextKey.same_iff]
          exact same
        simp [valueAt, ne, ih tail, Ne.symm same]

theorem entries_eq_of_valueAt {l l' : List (κ × α)}
    (hl : l.Pairwise fun a b => TextKey.text a.1 < TextKey.text b.1)
    (hl' : l'.Pairwise fun a b => TextKey.text a.1 < TextKey.text b.1)
    (h : ∀ k, valueAt k l = valueAt k l') : l = l' := by
  induction l generalizing l' with
  | nil =>
    cases l' with
    | nil => rfl
    | cons head rest => simpa [valueAt] using h head.1
  | cons head rest ih =>
    cases l' with
    | nil => simpa [valueAt] using h head.1
    | cons head' rest' =>
      obtain ⟨below, tail⟩ := List.pairwise_cons.1 hl
      obtain ⟨below', tail'⟩ := List.pairwise_cons.1 hl'
      have notLt : ¬TextKey.text head.1 < TextKey.text head'.1 := by
        intro lt
        have none' : valueAt head.1 (head' :: rest') = none := by
          refine valueAt_eq_none fun e he => ?_
          rcases List.mem_cons.1 he with rfl | he
          · exact lt
          · exact String.lt_trans lt (below' e he)
        have eq := h head.1
        rw [none', valueAt, if_pos (TextKey.same_iff.2 rfl)] at eq
        cases eq
      have notGt : ¬TextKey.text head'.1 < TextKey.text head.1 := by
        intro lt
        have none' : valueAt head'.1 (head :: rest) = none := by
          refine valueAt_eq_none fun e he => ?_
          rcases List.mem_cons.1 he with rfl | he
          · exact lt
          · exact String.lt_trans lt (below e he)
        have eq := h head'.1
        rw [none', valueAt, if_pos (TextKey.same_iff.2 rfl)] at eq
        cases eq
      have keyEq : head.1 = head'.1 := TextKey.eq_of_text
        (String.le_antisymm (String.not_lt.1 notGt) (String.not_lt.1 notLt))
      have valueEq : head.2 = head'.2 := by
        simpa [valueAt, keyEq] using h head.1
      have headEq : head = head' := Prod.ext keyEq valueEq
      subst headEq
      congr 1
      refine ih tail tail' fun k => ?_
      by_cases eq : head.1 = k
      · subst eq
        rw [valueAt_eq_none below, valueAt_eq_none below']
      · have ne : TextKey.same head.1 k = false := by
          rw [Bool.eq_false_iff, Ne, TextKey.same_iff]
          exact eq
        simpa [valueAt, ne] using h k

/-- A map is determined by its look-ups. -/
theorem ext_get? {m n : SortedMap κ α} (h : ∀ k, m.get? k = n.get? k) : m = n :=
  SortedMap.ext (entries_eq_of_valueAt m.sorted n.sorted h)

/-- A key has a value exactly if the two are an entry. -/
theorem get?_eq_some_iff {m : SortedMap κ α} {k : κ} {v : α} :
    m.get? k = some v ↔ (k, v) ∈ m.entries := valueAt_eq_some_iff m.sorted

theorem get?_filterMap (m : SortedMap κ α) (f : κ → α → Option β) (k : κ) :
    (m.filterMap f).get? k = (m.get? k).bind (f k) := by
  refine Option.ext fun v => ?_
  rw [get?_eq_some_iff, Option.bind_eq_some_iff, filterMap, List.mem_filterMap]
  constructor
  · rintro ⟨⟨k', v'⟩, mem, eq⟩
    obtain ⟨w, found, pair⟩ := Option.map_eq_some_iff.1 eq
    obtain ⟨rfl, rfl⟩ := Prod.mk.inj pair
    exact ⟨v', get?_eq_some_iff.2 mem, found⟩
  · rintro ⟨v', mem, found⟩
    exact ⟨(k, v'), get?_eq_some_iff.1 mem, by rw [found]; rfl⟩

theorem get?_filter (m : SortedMap κ α) (keep : κ → α → Bool) (k : κ) :
    (m.filter keep).get? k = (m.get? k).filter (keep k) := by
  refine Option.ext fun v => ?_
  rw [get?_eq_some_iff, Option.filter_eq_some_iff, get?_eq_some_iff]
  exact List.mem_filter

theorem mem_values_iff {m : SortedMap κ α} {v : α} :
    v ∈ m.values ↔ ∃ k, (k, v) ∈ m.entries := by
  simp [values]

theorem isEmpty_iff {m : SortedMap κ α} : m.isEmpty = true ↔ m = empty := by
  rw [isEmpty, List.isEmpty_iff, SortedMap.ext_iff]
  rfl

@[simp]
theorem get?_empty (k : κ) : (empty : SortedMap κ α).get? k = none := rfl

theorem total_add (m : SortedMap κ α) (a b : α → Nat) :
    m.total (fun v => a v + b v) = m.total a + m.total b := by
  unfold total
  induction m.values with
  | nil => rfl
  | cons v rest ih =>
    simp only [List.foldr_cons, ih]
    omega

/-- Values that go away count for nothing. -/
theorem total_filterMap (m : SortedMap κ α) (f : α → Option β) (number : β → Nat) :
    (m.filterMap fun _ => f).total number = m.total fun v => (f v).elim 0 number := by
  simp only [total, values, filterMap]
  induction m.entries with
  | nil => rfl
  | cons e rest ih => cases found : f e.2 <;> simp [found, ih]

/-! ## Filling a map -/

theorem nodup_keys (m : SortedMap κ α) : (m.entries.map (·.1)).Nodup := by
  refine List.Pairwise.map _ (fun a b below same => ?_) m.sorted
  rw [same] at below
  exact String.lt_irrefl _ below

theorem get?_foldl_insert_of_notMem {k : κ} {l : List (κ × α)} (m : SortedMap κ α)
    (absent : k ∉ l.map (·.1)) :
    (l.foldl (fun m e => m.insert e.1 e.2) m).get? k = m.get? k := by
  induction l generalizing m with
  | nil => rfl
  | cons e rest ih =>
    rw [List.map_cons, List.mem_cons, not_or] at absent
    rw [List.foldl_cons, ih _ absent.2, get?_insert_of_ne _ absent.1]

theorem get?_foldl_insert_of_mem {k : κ} {v : α} {l : List (κ × α)} (m : SortedMap κ α)
    (nodup : (l.map (·.1)).Nodup) (mem : (k, v) ∈ l) :
    (l.foldl (fun m e => m.insert e.1 e.2) m).get? k = some v := by
  induction l generalizing m with
  | nil => cases mem
  | cons e rest ih =>
    rw [List.map_cons, List.nodup_cons] at nodup
    rw [List.foldl_cons]
    rcases List.mem_cons.1 mem with rfl | later
    · rw [get?_foldl_insert_of_notMem _ nodup.1, get?_insert_self]
    · exact ih _ nodup.2 later

/-- The order in which a map is filled with its entries does not matter. -/
theorem ofList_eq_of_perm {m : SortedMap κ α} {l : List (κ × α)} (perm : l.Perm m.entries) :
    ofList l = m := by
  have nodup : (l.map (·.1)).Nodup := (perm.map _).nodup_iff.2 m.nodup_keys
  refine ext_get? fun k => ?_
  cases found : m.get? k with
  | some v =>
    exact get?_foldl_insert_of_mem _ nodup (perm.mem_iff.2 (get?_eq_some_iff.1 found))
  | none =>
    refine get?_foldl_insert_of_notMem _ fun mem => ?_
    obtain ⟨⟨k', v⟩, given, rfl⟩ := List.mem_map.1 mem
    have some' : m.get? k' = some v := get?_eq_some_iff.2 (perm.mem_iff.1 given)
    rw [found] at some'
    cases some'

end SortedMap

end DiagnosticFeed
