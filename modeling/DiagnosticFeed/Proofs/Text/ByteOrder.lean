import Mathlib.Data.List.Basic

/-!
# The order of texts by their bytes

Texts are compared by code points, and UTF-8 keeps this order: a text comes
before another one exactly if its bytes do (`bytes_lt_bytes_iff`). The first
byte of a character tells the number of its bytes, more of them for greater
characters, and what follows are the digits of its code point to the base 64.
-/

namespace DiagnosticFeed.Text

def bytes (text : String) : List UInt8 := text.toByteArray.data.toList

theorem bytes_eq_flatMap (text : String) :
    bytes text = text.toList.flatMap String.utf8EncodeChar := by
  rw [bytes, ← String.utf8Encode_toList, List.utf8Encode, List.data_toByteArray]

/-- The bytes of a smaller character come first, whatever follows. -/
theorem utf8EncodeChar_append_lt {c d : Char} (h : c < d) (l m : List UInt8) :
    String.utf8EncodeChar c ++ l < String.utf8EncodeChar d ++ m := by
  have lt : c.val.toNat < d.val.toNat := h
  have bound : d.val.toNat < 0x110000 := by
    rcases d.valid with below | above
    · omega
    · exact above.2
  unfold String.utf8EncodeChar
  generalize c.val.toNat = v at lt
  generalize d.val.toNat = w at lt bound
  have digits : ∀ n, n / 64 / 64 = n / 4096 ∧ n / 4096 / 64 = n / 262144 := by
    intro n
    omega
  have digits₁ := digits v
  have digits₂ := digits w
  -- both numbers of bytes are told by comparisons, and then the bytes are numbers
  dsimp only
  split_ifs <;>
    simp (disch := omega) only [List.cons_append, List.nil_append, List.cons_lt_cons_iff,
      UInt8.lt_iff_toNat_lt, ← UInt8.toNat_inj, UInt8.toNat_ofNat', Nat.mod_eq_of_lt] <;>
    omega

theorem flatMap_utf8EncodeChar_lt {l m : List Char} (h : l < m) :
    l.flatMap String.utf8EncodeChar < m.flatMap String.utf8EncodeChar := by
  induction l generalizing m with
  | nil =>
      cases m with
      | nil => exact absurd h (List.not_lt_nil _)
      | cons d m =>
          obtain ⟨byte, more, first⟩ : ∃ byte more, String.utf8EncodeChar d = byte :: more :=
            List.exists_cons_of_length_pos (String.length_utf8EncodeChar d ▸ d.utf8Size_pos)
          rw [List.flatMap_cons, first]
          exact List.nil_lt_cons _ _
  | cons c l ih =>
      cases m with
      | nil => exact absurd h (List.not_lt_nil _)
      | cons d m =>
          rw [List.flatMap_cons, List.flatMap_cons]
          rcases List.cons_lt_cons_iff.1 h with less | ⟨rfl, rest⟩
          · exact utf8EncodeChar_append_lt less _ _
          · exact List.append_left_lt (ih rest)

theorem bytes_lt_bytes {a b : String} (h : a < b) : bytes a < bytes b := by
  rw [bytes_eq_flatMap, bytes_eq_flatMap]
  exact flatMap_utf8EncodeChar_lt h

/-- Texts have the order of their bytes. -/
theorem bytes_lt_bytes_iff {a b : String} : bytes a < bytes b ↔ a < b := by
  refine ⟨fun h => Decidable.byContradiction fun notLt => ?_, bytes_lt_bytes⟩
  by_cases greater : b < a
  · exact List.lt_irrefl _ (List.lt_trans h (bytes_lt_bytes greater))
  · rw [String.le_antisymm (String.not_lt.1 greater) (String.not_lt.1 notLt)] at h
    exact List.lt_irrefl _ h

end DiagnosticFeed.Text
