import DiagnosticFeed.Proofs.FileKey.Climbs

/-!
# Keys within keys

Every key lies within itself, and two keys that lie within each other are the
same. What lies within a key lies within all that the key lies within, but for
one case: a key of one byte and a colon is not rooted, so it lies within the
single dot, and text that goes on from it behind a slash is rooted, so it does
not (`isWithin_trans_iff`). There always is such text (`exists_beyond`).
-/

namespace DiagnosticFeed

namespace PathParts

open Segment (here)

/-- Behind a leading `./` no drive is looked for. -/
theorem resolve_ofUnified_here {segments : List Segment} (h : Reduced false segments) :
    (ofUnified ('.' :: '/' :: ['/'].intercalate segments)).resolve = ⟨none, false, segments⟩ := by
  have walked := walk_splitOn_intercalate h
  have pieces : ('.' :: '/' :: ['/'].intercalate segments).splitOn '/' =
      here :: (['/'].intercalate segments).splitOn '/' := by
    rw [← List.singleton_append, List.splitOn_append_cons_self]
    rfl
  have unrooted : walk false (here :: (['/'].intercalate segments).splitOn '/') =
      walk false ((['/'].intercalate segments).splitOn '/') := by
    rw [walk, List.foldl_cons, enter_blank false [] (Or.inr rfl)]
    rfl
  rw [ofUnified_of_not_isAlpha (by rintro _ _ ⟨⟩), ofRest, resolve, pieces]
  simp [unrooted, walked]

end PathParts

namespace FileKey

open PathParts

variable {a b c k : FileKey}

theorem chars_ne_nil (k : FileKey) : k.chars ≠ [] := by
  obtain ⟨path, rfl⟩ := exists_ofPath k
  rw [chars, text_ofPath, toList_normalText]
  split
  · simp
  · assumption

/-- Segments with nothing to resolve are the text of a key, whether or not the
first of them reads like a drive. -/
theorem exists_chars_eq_of_reduced {segments : List Segment} (h : Reduced false segments)
    (some_segment : ['/'].intercalate segments ≠ []) :
    ∃ k : FileKey, k.chars = ['/'].intercalate segments := by
  have normal : (⟨none, false, segments⟩ : PathParts).IsNormal := ⟨h, nofun, nofun⟩
  have clean : '\\' ∉ '.' :: '/' :: ['/'].intercalate segments := by
    simpa [written, front] using normal.backslash_not_mem_written
  refine ⟨ofPath (String.ofList ('.' :: '/' :: ['/'].intercalate segments)), ?_⟩
  have read : (scan (String.ofList ('.' :: '/' :: ['/'].intercalate segments))).resolve.written =
      ['/'].intercalate segments := by
    rw [scan, String.toList_ofList, unify_of_backslash_not_mem clean, resolve_ofUnified_here h]
    rfl
  rw [chars, text_ofPath, toList_normalText, read, if_neg some_segment]

/-! ## The order -/

theorem isWithin_self (k : FileKey) : k.isWithin k = true := by
  by_cases dot : k.text = "."
  · rw [isWithin_of_dot dot, isRooted, chars, dot]
    rfl
  · exact (isWithin_iff dot).2 ⟨[], (List.append_nil _).symm, Or.inl rfl⟩

theorem eq_dot_of_isPrefix (shorter : a.chars <+: b.chars) (dot : b.text = ".") : a.text = "." := by
  obtain ⟨more, eq⟩ := shorter
  have whole : b.chars = ['.'] := by rw [chars, dot]; rfl
  rw [whole, List.append_eq_singleton_iff] at eq
  have aEq : a.chars = ['.'] := (eq.resolve_left fun nil => a.chars_ne_nil nil.1).1
  exact String.toList_injective aEq

theorem eq_of_isWithin_isWithin (hab : a.isWithin b = true) (hba : b.isWithin a = true) :
    a = b := by
  by_cases dot : b.text = "." ∨ a.text = "."
  · have aDot : a.text = "." := by
      rcases dot with bDot | aDot
      · by_contra ne
        exact ne (eq_dot_of_isPrefix (isPrefix_of_isWithin ne hba) bDot)
      · exact aDot
    have bDot : b.text = "." :=
      by_contra fun ne => ne (eq_dot_of_isPrefix (isPrefix_of_isWithin ne hab) aDot)
    exact ext (aDot.trans bDot.symm)
  · rw [not_or] at dot
    have below := isPrefix_of_isWithin dot.1 hab
    have above := isPrefix_of_isWithin dot.2 hba
    exact ext (String.toList_injective (above.eq_of_length_le below.length_le))

/-- A key that is not rooted, though all text is that goes on from it behind a
slash: one byte and a colon. -/
def LooksLikeDrive (k : FileKey) : Prop :=
  ∃ letter : Char, letter.toNat < 128 ∧ k.chars = [letter, ':']

/-- Text becomes rooted behind a slash only where it looks like a drive. -/
theorem rootedText_append_slash_iff {text : List Char} (some_text : text ≠ []) (rest : List Char) :
    rootedText (text ++ '/' :: rest) = true ↔
      rootedText text = true ∨ ∃ letter : Char, letter.toNat < 128 ∧ text = [letter, ':'] := by
  match text with
  | [] => exact absurd rfl some_text
  | [c] => by_cases slash : c = '/' <;> simp [rootedText, slash]
  | [c, d] =>
      by_cases slash : c = '/' <;> by_cases colon : d = ':' <;> simp [rootedText, slash, colon]
  | c :: d :: e :: text =>
      by_cases slash : c = '/' <;> by_cases colon : d = ':' <;> by_cases last : e = '/' <;>
        simp [rootedText, slash, colon, last]

/-- What goes on from a key that is not rooted is rooted only if the key looks
like a drive. -/
theorem isRooted_of_isWithin (dot : b.text ≠ ".") (unrooted : b.isRooted = false)
    (within : a.isWithin b = true) : a.isRooted = true ↔ b.LooksLikeDrive ∧ a ≠ b := by
  obtain ⟨more, eq, atSeparator⟩ := (isWithin_iff dot).1 within
  have bUnrooted : ¬rootedText b.chars = true := Bool.eq_false_iff.1 unrooted
  cases more with
  | nil =>
      have same : a = b := ext (String.toList_injective (eq.trans (List.append_nil _)))
      rw [same]
      exact iff_of_false bUnrooted fun h => h.2 rfl
  | cons d rest =>
      have apart : a ≠ b := by
        rintro rfl
        simp at eq
      rw [isRooted, eq]
      rcases atSeparator with nil | last | slash
      · cases nil
      · -- the slash belongs to the root, which is rooted already if anything is
        obtain ⟨front, bEq⟩ := List.getLast?_eq_some_iff.1 last
        have notDrive : ¬b.LooksLikeDrive := by
          rintro ⟨letter, -, drive⟩
          rw [drive] at last
          cases last
        refine iff_of_false ?_ fun h => notDrive h.1
        have some_text : front ≠ [] := by
          rintro rfl
          exact bUnrooted (by rw [bEq]; rfl)
        rw [bEq, rootedText_append_slash_iff some_text] at bUnrooted
        rwa [bEq, List.append_assoc, List.singleton_append, rootedText_append_slash_iff some_text]
      · obtain rfl : d = '/' := by simpa using slash
        rw [rootedText_append_slash_iff b.chars_ne_nil, or_iff_right bUnrooted]
        exact (and_iff_left apart).symm

/-- To lie within is transitive, unless the outermost key is the single dot, the
one in the middle looks like a drive and the innermost one is a third. -/
theorem isWithin_trans_iff (hab : a.isWithin b = true) (hbc : b.isWithin c = true) :
    a.isWithin c = true ↔ ¬(c.text = "." ∧ b.LooksLikeDrive ∧ a ≠ b) := by
  by_cases cDot : c.text = "."
  · by_cases bDot : b.text = "."
    · have same : b = c := ext (bDot.trans cDot.symm)
      have notDrive : ¬b.LooksLikeDrive := by
        rintro ⟨letter, -, drive⟩
        rw [chars, bDot] at drive
        cases drive
      rw [← same]
      exact iff_of_true hab fun h => notDrive h.2.1
    · rw [isWithin_of_dot cDot, Bool.not_eq_true'] at hbc
      rw [isWithin_of_dot cDot, Bool.not_eq_true', ← Bool.not_eq_true,
        isRooted_of_isWithin bDot hbc hab, and_iff_right cDot]
  · refine iff_of_true ?_ fun h => cDot h.1
    have bDot : b.text ≠ "." :=
      fun dot => cDot (eq_dot_of_isPrefix (isPrefix_of_isWithin cDot hbc) dot)
    obtain ⟨more, aEq, aSeparator⟩ := (isWithin_iff bDot).1 hab
    obtain ⟨between, bEq, bSeparator⟩ := (isWithin_iff cDot).1 hbc
    refine (isWithin_iff cDot).2 ⟨between ++ more, by rw [aEq, bEq, List.append_assoc], ?_⟩
    cases between with
    | nil =>
        rw [List.append_nil] at bEq
        rwa [List.nil_append, ← bEq]
    | cons d between => simpa using bSeparator

/-- Something lies within each key that looks like a drive, if the key is not
rooted. -/
theorem LooksLikeDrive.exists_beyond (h : k.LooksLikeDrive) (unrooted : k.isRooted = false) :
    ∃ f : FileKey, f.isWithin k = true ∧ f ≠ k := by
  obtain ⟨letter, -, drive⟩ := h
  have notDot : k.text ≠ "." := by
    intro dot
    rw [chars, dot] at drive
    cases drive
  have notSlash : letter ≠ '/' := by
    rintro rfl
    rw [isRooted, drive] at unrooted
    cases unrooted
  have notBackslash : letter ≠ '\\' := by
    rintro rfl
    obtain ⟨p, normal, written⟩ := exists_written notDot
    refine normal.backslash_not_mem_written ?_
    rw [← written, drive]
    exact List.mem_cons_self
  have reduced : Reduced false [[letter, ':'], ['x']] := by
    refine ⟨0, _, rfl, fun s hs => ?_, fun _ => rfl⟩
    rcases List.mem_pair.1 hs with rfl | rfl
    · exact ⟨by simp, by simp [Segment.here], by simp [Segment.up],
        by simp [Segment.IsClean, notSlash.symm, notBackslash.symm]⟩
    · exact ⟨by decide, by decide, by decide, by unfold Segment.IsClean; decide⟩
  obtain ⟨f, fChars⟩ := exists_chars_eq_of_reduced reduced (by simp)
  have goesOn : f.chars = k.chars ++ ['/', 'x'] := by
    rw [fChars, drive]
    rfl
  refine ⟨f, (isWithin_iff notDot).2 ⟨_, goesOn, Or.inr (Or.inr rfl)⟩, ?_⟩
  rintro rfl
  simp at goesOn

end FileKey

end DiagnosticFeed
