import DiagnosticFeed.Json.Buffer
import DiagnosticFeed.Proofs.Json.Scanning

/-!
# What fits into a buffer

A natural number of 64 bits fits into a buffer: its digits are taken in without a
loss, and far less than the greatest binary floating-point number comes of them.
An array or object fits if there is room for one more level and all that is in it
fits one level deeper, in whatever order it is.
-/

namespace DiagnosticFeed.Json

/-! ## Numbers -/

theorem foldl_addWhole (ds : List (Fin 10)) {n : Nat}
    (fits : ds.foldl (fun n d => n * 10 + d.val) n < UInt64.size) :
    ds.foldl Leading.addWhole ⟨n, 0, 0⟩ = ⟨ds.foldl (fun n d => n * 10 + d.val) n, 0, 0⟩ := by
  have grows : ∀ (ds : List (Fin 10)) (n : Nat), n ≤ ds.foldl (fun n d => n * 10 + d.val) n := by
    intro ds
    induction ds with
    | nil => exact fun n => Nat.le_refl n
    | cons d rest ih =>
        intro n
        have further := ih (n * 10 + d.val)
        simp only [List.foldl_cons]
        omega
  induction ds generalizing n with
  | nil => rfl
  | cons d rest ih =>
      simp only [List.foldl_cons] at fits ⊢
      have next : n * 10 + d.val < UInt64.size := Nat.lt_of_le_of_lt (grows rest _) fits
      rw [← ih fits]
      simp [Leading.addWhole, next]

theorem val_digitOf {c : Char} (digit : c.isDigit = true) : (digitOf c).val = c.toNat - 48 := by
  have small : c.toNat ≤ 57 := (Char.isDigit_iff_toNat.1 digit).2
  exact Nat.mod_eq_of_lt (by omega)

theorem foldl_digits (n : Nat) :
    ((digits n).map digitOf).foldl (fun n d => n * 10 + d.val) 0 = n := by
  have values : ∀ (cs : List Char) (init : Nat), (∀ c ∈ cs, c.isDigit = true) →
      cs.foldl (fun n c => n * 10 + (digitOf c).val) init = Nat.ofDigitChars 10 cs init := by
    intro cs
    induction cs with
    | nil => exact fun _ _ => rfl
    | cons c cs ih =>
        intro init digit
        rw [List.foldl_cons, ih _ fun d hd => digit d (List.mem_cons_of_mem c hd),
          val_digitOf (digit c List.mem_cons_self), Nat.mul_comm]
        rfl
  rw [List.foldl_map, values _ 0 fun _ mem => isDigit_of_mem_digits mem]
  exact ofDigits_digits n

theorem leading_ofNat {n : Nat} (h : n < UInt64.size) :
    (Number.ofNat n).leading = ⟨n, 0, 0⟩ := by
  have taken := foldl_addWhole ((digits n).map digitOf) (n := 0) (by rwa [foldl_digits])
  rw [foldl_digits] at taken
  simp only [Number.leading, Number.ofNat, taken]
  rfl

theorem roundedTo53_le (n : Nat) : roundedTo53 n ≤ 2 * n := by
  unfold roundedTo53
  split
  · omega
  · rename_i big
    have positive : n ≠ 0 := by
      rintro rfl
      exact big (by decide)
    have unit_le : Nat.pow 2 (n.log2 - 52) ≤ n :=
      Nat.le_trans (Nat.pow_le_pow_right (by decide) (Nat.sub_le _ _)) (Nat.log2_self_le positive)
    have low_le : n / Nat.pow 2 (n.log2 - 52) * Nat.pow 2 (n.log2 - 52) ≤ n :=
      Nat.div_mul_le_self n _
    -- at most one unit is added to what is left of the number in whole units
    dsimp only
    rw [Nat.add_mul]
    split <;> omega

theorem isFinite_ofNat {n : Nat} (h : n < UInt64.size) : (Number.ofNat n).isFinite = true := by
  have scale : (Number.ofNat n).scale = .ofNat 0 := by
    rw [Number.scale, leading_ofNat h]
    rfl
  have one : roundedTo53 (Nat.pow 10 0) = 1 := by decide +kernel
  have bound : 2 * UInt64.size < overflowBound := by decide +kernel
  have rounded := roundedTo53_le n
  unfold Number.isFinite
  rw [scale]
  simp only [leading_ofNat h, one, Nat.mul_one, Bool.or_eq_true, decide_eq_true_eq,
    Bool.and_eq_true]
  exact Or.inr ⟨Nat.zero_le _, by omega⟩

/-! ## Buffers -/

variable {room : Nat}

theorem elementsFit_iff {vs : List Json} :
    elementsFit room vs = true ↔ ∀ v ∈ vs, v.fits room = true := by
  induction vs with
  | nil => simp [elementsFit]
  | cons v vs ih => simp [elementsFit, ih]

theorem membersFit_iff {ms : List (Option String × Json)} :
    membersFit room ms = true ↔ ∀ m ∈ ms, m.1.isSome = true ∧ m.2.fits room = true := by
  induction ms with
  | nil => simp [membersFit]
  | cons m ms ih => simp [membersFit, ih]

theorem fits_array {vs : List Json} (inside : ∀ v ∈ vs, v.fits room = true) :
    (Json.array vs).fits (room + 1) = true := by
  rw [fits, Nat.add_sub_cancel, elementsFit_iff.2 inside]
  simp

theorem fits_record {members : List (String × Json)}
    (inside : ∀ m ∈ members, m.2.fits room = true) : (record members).fits (room + 1) = true := by
  have members' : membersFit room (members.map fun m => (some m.1, m.2)) = true := by
    rw [membersFit_iff]
    intro m mem
    obtain ⟨given, isGiven, rfl⟩ := List.mem_map.1 mem
    exact ⟨rfl, inside given isGiven⟩
  rw [record, fits, Nat.add_sub_cancel, members']
  simp

theorem fits_knownMember {α : Type} {write : α → Json} (inside : ∀ a, (write a).fits room = true)
    (name : String) (o : Option α) : ∀ m ∈ knownMember name write o, m.2.fits room = true := by
  cases o with
  | none => exact nofun
  | some a =>
      intro m mem
      obtain rfl := List.mem_singleton.1 mem
      exact inside a

theorem fits_natural (n : UInt32) : (natural n.toNat).fits room = true :=
  isFinite_ofNat (Nat.lt_trans n.toNat_lt_size (by decide))

/-- Two counts in an object need one level. -/
theorem fits_counts (name name' : String) (m n : UInt32) :
    (record [(name, natural m.toNat), (name', natural n.toNat)]).fits (room + 1) = true := by
  refine fits_record fun field mem => ?_
  simp only [List.mem_cons, List.not_mem_nil, or_false] at mem
  rcases mem with rfl | rfl
  · exact fits_natural m
  · exact fits_natural n

end DiagnosticFeed.Json
