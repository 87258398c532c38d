import DiagnosticFeed.Json.Record
import Mathlib.Data.List.Nodup

/-!
# Fields out of members

A record is read from an object whatever the order of its members: a field has
the value of the member with its name, as long as no key is there twice
(`exists_record?_eq_of_perm`). What this means for fields that may be left out is
said once for each way of leaving them out.
-/

namespace DiagnosticFeed.Json

/-! ## Members by key -/

section

variable {α : Type} {l l' : List (String × α)} {k : String}

theorem lookup_eq_some_iff_mem (nodup : (l.map (·.1)).Nodup) {v : α} :
    l.lookup k = some v ↔ (k, v) ∈ l := by
  induction l with
  | nil => simp
  | cons m rest ih =>
      obtain ⟨k', v'⟩ := m
      rw [List.map_cons, List.nodup_cons] at nodup
      by_cases same : k = k'
      · subst same
        have absent : (k, v) ∉ rest := fun mem => nodup.1 (List.mem_map.2 ⟨_, mem, rfl⟩)
        simp [absent, eq_comm]
      · have other : (k == k') = false := by simp [same]
        simp [List.lookup_cons, other, same, ih nodup.2]

theorem lookup_eq_of_perm (nodup : (l.map (·.1)).Nodup) (perm : l'.Perm l) :
    l'.lookup k = l.lookup k := by
  have nodup' : (l'.map (·.1)).Nodup := (perm.map _).nodup_iff.2 nodup
  refine Option.ext fun v => ?_
  rw [lookup_eq_some_iff_mem nodup', lookup_eq_some_iff_mem nodup, perm.mem_iff]

theorem lookup_filter (l : List (String × α)) (keep : String → Bool) (k : String) :
    (l.filter fun m => keep m.1).lookup k = if keep k then l.lookup k else none := by
  induction l with
  | nil => simp
  | cons m rest ih =>
      obtain ⟨k', v⟩ := m
      by_cases same : k = k'
      · subst same
        by_cases kept : keep k <;> simp [kept, ih]
      · have other : (k == k') = false := by simp [same]
        by_cases kept : keep k' <;> simp [List.lookup_cons, kept, other, ih]

theorem lookup_knownMember (name : String) (write : α → Json) (o : Option α) (k : String) :
    (knownMember name write o).lookup k = if k = name then o.map write else none := by
  cases o <;> by_cases same : k = name <;> simp [knownMember, same]

theorem keys_knownMember_sublist (name : String) (write : α → Json) (o : Option α) :
    ((knownMember name write o).map (·.1)).Sublist [name] := by
  cases o
  · exact List.nil_sublist _
  · exact List.Sublist.refl _

end

/-! ## Records -/

theorem keyed?_record (members : List (String × Json)) :
    keyed? (members.map fun m => (some m.1, m.2)) = some members := by
  unfold keyed?
  induction members with
  | nil => rfl
  | cons m rest ih => simp [ih]

/-- The members of an object are the fields of a record in any order. -/
theorem exists_record?_eq_of_perm (names : List String) {members given : List (String × Json)}
    (nodup : (members.map (·.1)).Nodup) (perm : given.Perm members) :
    ∃ r, (record given).record? names = some r ∧ r.listed = false ∧
      ∀ name ∈ names, r.get? name = members.lookup name := by
  have nodup' : (given.map (·.1)).Nodup := (perm.map _).nodup_iff.2 nodup
  have known : ((given.filter fun m => names.contains m.1).map (·.1)).Nodup :=
    (List.filter_sublist.map _).nodup nodup'
  refine ⟨⟨false, given.filter fun m => names.contains m.1⟩, ?_, rfl, fun name mem => ?_⟩
  · simp only [record, record?, keyed?_record, Option.bind_eq_bind, Option.bind_some, if_pos known]
  · have isName : names.contains name = true := List.contains_iff_mem.2 mem
    rw [Record.get?, lookup_filter, if_pos isName, lookup_eq_of_perm nodup perm]

theorem exists_record?_eq_of_perm_filter (names : List String) (keep : String → Prop)
    [DecidablePred keep] {members given : List (String × Json)}
    (nodup : (members.map (·.1)).Nodup) (perm : given.Perm (members.filter fun m => keep m.1)) :
    ∃ r, (record given).record? names = some r ∧ r.listed = false ∧
      ∀ name ∈ names, r.get? name = if keep name then members.lookup name else none := by
  obtain ⟨r, read, named, fields⟩ :=
    exists_record?_eq_of_perm names ((List.filter_sublist.map _).nodup nodup) perm
  refine ⟨r, read, named, fun name mem => ?_⟩
  have kept := lookup_filter members (fun name => decide (keep name)) name
  simp only [decide_eq_true_eq] at kept
  exact (fields name mem).trans kept

/-- The two members of an object are the fields of a record, whichever comes first. -/
theorem exists_record?_eq_of_perm_pair {name name' : String} (ne : name ≠ name') {v v' : Json}
    {given : List (String × Json)} (perm : given.Perm [(name, v), (name', v')]) :
    ∃ r, (record given).record? [name, name'] = some r ∧
      r.get? name = some v ∧ r.get? name' = some v' := by
  have nodup : ([(name, v), (name', v')].map (·.1)).Nodup := by simp [ne]
  have other : (name' == name) = false := by simp [ne.symm]
  obtain ⟨r, read, -, fields⟩ := exists_record?_eq_of_perm [name, name'] nodup perm
  refine ⟨r, read, ?_, ?_⟩
  · rw [fields name (by simp), List.lookup_cons_self]
  · rw [fields name' (by simp), List.lookup_cons, other, List.lookup_cons_self]

namespace Record

variable {α : Type} {r : Record} {name : String} {read : Json → Option α}

theorem required_of_get? {v : Json} (given : r.get? name = some v) :
    r.required name read = read v := by
  rw [required, given, Option.bind_some]

/-- An object is not null. -/
theorem nullable_record {members : List (String × Json)} {a : α}
    (back : read (record members) = some a) : nullable read (record members) = some (some a) := by
  rw [record] at back ⊢
  rw [nullable, back, Option.map_some]
  nofun

/-- A field whose value is written if there is one. -/
theorem omissible_of_get? {write : α → Json} {o : Option α} (given : r.get? name = o.map write)
    (back : ∀ a, nullable read (write a) = some (some a)) : r.omissible name read = some o := by
  cases o with
  | none => rw [omissible, orElse, given, Option.map_none]
  | some a =>
      rw [omissible, orElse, given, Option.map_some]
      exact back a

/-- A field of an object that is null if there is no value, and may be left out
then. -/
theorem optional_of_get? {write : α → Json} {o : Option α} {shown : Prop} [Decidable shown]
    (named : r.listed = false)
    (given : r.get? name = if shown then some (o.elim .null write) else none)
    (empty : ¬shown → o = none) (back : ∀ a, nullable read (write a) = some (some a)) :
    r.optional name read = some o := by
  by_cases h : shown
  · rw [if_pos h] at given
    rw [optional, given]
    cases o with
    | none => rfl
    | some a => exact back a
  · rw [if_neg h] at given
    simp [optional, given, named, empty h]

/-- A field that is written for some keys and has a value of its own without. -/
theorem orElse_of_get? {v : Json} {a default : α} {shown : Prop} [Decidable shown]
    (given : r.get? name = if shown then some v else none) (back : read v = some a) :
    r.orElse name read default = some (if shown then a else default) := by
  rw [orElse, given]
  by_cases h : shown
  · simp only [if_pos h, back]
  · simp only [if_neg h]

end Record

/-! ## Single values -/

theorem toNat?_natural (n : Nat) : (natural n).toNat? = some n := rfl

theorem toUInt32?_natural (n : UInt32) : (natural n.toNat).toUInt32? = some n := by
  rw [toUInt32?, toNat?_natural, Option.bind_some, if_pos n.toNat_lt_size, UInt32.ofNat_toNat]

theorem toUInt64?_natural (n : UInt64) : (natural n.toNat).toUInt64? = some n := by
  rw [toUInt64?, toNat?_natural, Option.bind_some, if_pos n.toNat_lt_size, UInt64.ofNat_toNat]

/-- Two counts are read from an object that holds them. -/
theorem exists_record?_counts (name name' : String) (ne : name ≠ name') (m n : UInt32) :
    ∃ r, (record [(name, natural m.toNat), (name', natural n.toNat)]).record? [name, name'] =
        some r ∧
      r.required name toUInt32? = some m ∧ r.required name' toUInt32? = some n := by
  obtain ⟨r, read, first, second⟩ := exists_record?_eq_of_perm_pair ne
    (.refl [(name, natural m.toNat), (name', natural n.toNat)])
  refine ⟨r, read, ?_, ?_⟩
  · rw [Record.required_of_get? first, toUInt32?_natural]
  · rw [Record.required_of_get? second, toUInt32?_natural]

theorem mapM_map_eq_some {α β : Type} {read : β → Option α} {write : α → β}
    (back : ∀ a, read (write a) = some a) (l : List α) : (l.map write).mapM read = some l := by
  induction l with
  | nil => rfl
  | cons a rest ih => simp [back, ih]

theorem toList?_array_map {α : Type} {read : Json → Option α} {write : α → Json}
    (back : ∀ a, read (write a) = some a) (l : List α) :
    toList? read (.array (l.map write)) = some l :=
  mapM_map_eq_some back l

theorem toList?_strings (l : List String) : toList? toText? (strings l) = some l :=
  toList?_array_map (fun s => show toText? (string s) = some s from rfl) l

end DiagnosticFeed.Json
