import DiagnosticFeed.FileKey
import Mathlib.Data.List.Basic

/-!
# What lies below a key

A key lies below another if its text goes on from the other one's text at a
separator. Two keys that a file lies below are beginnings of one text, so one of
them lies below the other (`isWithin_or_isWithin`).
-/

namespace DiagnosticFeed

namespace FileKey

variable {k root : FileKey}

theorem below?_of_dot (h : root.text = ".") :
    k.below? root = if k.isRooted then none else some k.chars := if_pos h

/-- Text is left of a key below a root that is no single dot if the key goes on
from the root at a separator, which may be the last character of the root. -/
theorem below?_eq_some_iff (h : root.text ≠ ".") {rest : List Char} :
    k.below? root = some rest ↔
      (k.chars = root.chars ∧ rest = []) ∨
        (root.chars.getLast? = some '/' ∧ k.chars = root.chars ++ rest) ∨
          (root.chars.getLast? ≠ some '/' ∧ k.chars = root.chars ++ '/' :: rest) := by
  rw [below?, if_neg h]
  cases found : after? root.chars k.chars with
  | none =>
      have apart : ∀ more, k.chars ≠ root.chars ++ more := by
        intro more eq
        rw [after?_eq_some_iff.2 eq] at found
        cases found
      have ne : k.chars ≠ root.chars := by simpa using apart []
      simp [apart, ne]
  | some more =>
      rw [after?_eq_some_iff] at found
      rw [found]
      cases more with
      | nil => simp [eq_comm]
      | cons c more =>
          by_cases last : root.chars.getLast? = some '/'
          · simp [last, eq_comm]
          · by_cases slash : c = '/'
            · simp [last, slash, eq_comm]
            · simp [last, slash]

theorem isWithin_of_dot (h : root.text = ".") : k.isWithin root = !k.isRooted := by
  rw [isWithin, below?_of_dot h]
  cases k.isRooted <;> rfl

theorem isWithin_iff (h : root.text ≠ ".") :
    k.isWithin root = true ↔
      ∃ more, k.chars = root.chars ++ more ∧
        (more = [] ∨ root.chars.getLast? = some '/' ∨ more.head? = some '/') := by
  rw [isWithin, Option.isSome_iff_exists]
  simp only [below?_eq_some_iff h]
  constructor
  · rintro ⟨rest, ⟨eq, -⟩ | ⟨last, eq⟩ | ⟨-, eq⟩⟩
    · exact ⟨[], by simpa using eq, Or.inl rfl⟩
    · exact ⟨rest, eq, Or.inr (Or.inl last)⟩
    · exact ⟨'/' :: rest, eq, Or.inr (Or.inr rfl)⟩
  · rintro ⟨more, eq, atSeparator⟩
    by_cases last : root.chars.getLast? = some '/'
    · exact ⟨more, Or.inr (Or.inl ⟨last, eq⟩)⟩
    · cases more with
      | nil => exact ⟨[], Or.inl ⟨by simpa using eq, rfl⟩⟩
      | cons c rest =>
          obtain rfl : c = '/' := by simpa [last] using atSeparator
          exact ⟨rest, Or.inr (Or.inr ⟨last, eq⟩)⟩

theorem rootedText_append {text : List Char} (h : rootedText text = true) (more : List Char) :
    rootedText (text ++ more) = true := by
  unfold rootedText at h
  split at h
  · rfl
  · rename_i c rest _
    by_cases slash : c = '/'
    · rw [slash]
      rfl
    · simpa [rootedText, slash] using h
  · cases h

theorem isRooted_of_isPrefix {a : FileKey} (h : a.chars <+: k.chars) (rooted : a.isRooted = true) :
    k.isRooted = true := by
  obtain ⟨more, eq⟩ := h
  rw [isRooted, ← eq]
  exact rootedText_append rooted more

theorem isPrefix_of_isWithin (h : root.text ≠ ".") (within : k.isWithin root = true) :
    root.chars <+: k.chars := by
  obtain ⟨more, eq, -⟩ := (isWithin_iff h).1 within
  exact ⟨more, eq.symm⟩

/-- Of two roots above a file, the longer one lies below the other. -/
theorem isWithin_of_isPrefix {a b : FileKey} (h : a.text ≠ ".") (within : k.isWithin a = true)
    (shorter : a.chars <+: b.chars) (above : b.chars <+: k.chars) : b.isWithin a = true := by
  obtain ⟨between, bEq⟩ := shorter
  obtain ⟨rest, kEq⟩ := above
  obtain ⟨more, eq, atSeparator⟩ := (isWithin_iff h).1 within
  obtain rfl : more = between ++ rest := by
    rw [← kEq, ← bEq, List.append_assoc] at eq
    exact (List.append_cancel_left eq).symm
  refine (isWithin_iff h).2 ⟨between, bEq.symm, ?_⟩
  cases between with
  | nil => exact Or.inl rfl
  | cons c between => simpa using atSeparator

theorem isWithin_of_dot_of_isWithin {a b : FileKey} (h : a.text = ".")
    (ha : k.isWithin a = true) (hb : k.isWithin b = true) : b.isWithin a = true := by
  rw [isWithin_of_dot h] at ha ⊢
  by_cases dot : b.text = "."
  · rw [isRooted, chars, dot]
    decide
  · rw [Bool.not_eq_true'] at ha ⊢
    rw [Bool.eq_false_iff] at ha ⊢
    exact fun rooted => ha (isRooted_of_isPrefix (isPrefix_of_isWithin dot hb) rooted)

/-- Two keys that one key lies below are nested. -/
theorem isWithin_or_isWithin {a b : FileKey} (ha : k.isWithin a = true)
    (hb : k.isWithin b = true) : a.isWithin b = true ∨ b.isWithin a = true := by
  by_cases aDot : a.text = "."
  · exact Or.inr (isWithin_of_dot_of_isWithin aDot ha hb)
  by_cases bDot : b.text = "."
  · exact Or.inl (isWithin_of_dot_of_isWithin bDot hb ha)
  have aAbove := isPrefix_of_isWithin aDot ha
  have bAbove := isPrefix_of_isWithin bDot hb
  rcases List.prefix_or_prefix_of_prefix aAbove bAbove with shorter | shorter
  · exact Or.inr (isWithin_of_isPrefix aDot ha shorter bAbove)
  · exact Or.inl (isWithin_of_isPrefix bDot hb shorter aAbove)

end FileKey

end DiagnosticFeed
