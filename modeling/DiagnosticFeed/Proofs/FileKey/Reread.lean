import DiagnosticFeed.Proofs.FileKey.Walk

/-!
# Reading normal parts again

What is read from a path string and resolved is normal (`PathParts.IsNormal`).
Text that normal parts are written as is read as the same parts, behind a drive
or where no drive is looked for.
-/

namespace DiagnosticFeed

namespace PathParts

/-- Parts with nothing to resolve and an upper-case drive letter, if any. -/
structure IsNormal (p : PathParts) : Prop where
  reduced : Reduced p.rooted p.segments
  drive_isAlpha : ∀ letter, p.drive = some letter → letter.isAlpha = true
  drive_toUpper : ∀ letter, p.drive = some letter → letter.toUpper = letter

/-! ## Drive letters -/

theorem isUpper_iff {letter : Char} :
    letter.isUpper = true ↔ 'A'.val ≤ letter.val ∧ letter.val ≤ 'Z'.val :=
  decide_eq_true_iff

theorem isLower_iff {letter : Char} :
    letter.isLower = true ↔ 'a'.val ≤ letter.val ∧ letter.val ≤ 'z'.val :=
  Bool.and_eq_true_iff.trans (and_congr decide_eq_true_iff decide_eq_true_iff)

theorem isAlpha_iff {letter : Char} :
    letter.isAlpha = true ↔ letter.isUpper = true ∨ letter.isLower = true :=
  Bool.or_eq_true_iff

theorem val_toUpper {letter : Char} (lower : letter.isLower = true) :
    letter.toUpper.val = letter.val + ('A'.val - 'a'.val) := by
  have upper : letter.toUpper = _ := dif_pos (isLower_iff.1 lower)
  rw [upper]

theorem toUpper_of_not_isLower {letter : Char} (h : letter.isLower = false) :
    letter.toUpper = letter :=
  dif_neg fun range => Bool.false_ne_true (h.symm.trans (isLower_iff.2 range))

theorem isUpper_toUpper {letter : Char} (lower : letter.isLower = true) :
    letter.toUpper.isUpper = true := by
  have range := isLower_iff.1 lower
  rw [isUpper_iff, val_toUpper lower]
  grind [UInt32.toNat_add]

theorem isLower_toUpper (letter : Char) : letter.toUpper.isLower = false := by
  cases lower : letter.isLower with
  | false => rwa [toUpper_of_not_isLower lower]
  | true =>
      have range := isUpper_iff.1 (isUpper_toUpper lower)
      refine Bool.eq_false_iff.2 fun h => ?_
      have range' := isLower_iff.1 h
      grind

theorem isAlpha_toUpper {letter : Char} (h : letter.isAlpha = true) :
    letter.toUpper.isAlpha = true := by
  cases lower : letter.isLower with
  | false => rwa [toUpper_of_not_isLower lower]
  | true => exact isAlpha_iff.2 (Or.inl (isUpper_toUpper lower))

/-! ## What is read is normal -/

theorem backslash_not_mem_unify (text : List Char) : '\\' ∉ text.map unify := by
  intro mem
  obtain ⟨c, _, eq⟩ := List.mem_map.1 mem
  unfold unify at eq
  by_cases h : c = '\\'
  · rw [if_pos h] at eq
    exact absurd eq (by decide)
  · rw [if_neg h] at eq
    exact h eq

theorem unify_of_backslash_not_mem {text : List Char} (h : '\\' ∉ text) :
    text.map unify = text := by
  have fixed : ∀ c ∈ text, unify c = c := by
    intro c hc
    have ne : c ≠ '\\' := fun eq => h (eq ▸ hc)
    exact if_neg ne
  rw [List.map_congr_left fixed, List.map_id']

theorem isNormal_resolve_ofRest_none {text : List Char} (clean : '\\' ∉ text) :
    (ofRest none text).resolve.IsNormal where
  reduced := reduced_walk _ fun _ hs => Segment.isClean_of_mem_splitOn clean hs
  drive_isAlpha := by rintro _ ⟨⟩
  drive_toUpper := by rintro _ ⟨⟩

theorem isNormal_resolve_ofRest_some {letter : Char} (alpha : letter.isAlpha = true)
    {rest : List Char} (clean : '\\' ∉ rest) :
    (ofRest (some letter.toUpper) rest).resolve.IsNormal where
  reduced := reduced_walk _ fun _ hs => Segment.isClean_of_mem_splitOn clean hs
  drive_isAlpha := by
    rintro _ ⟨⟩
    exact isAlpha_toUpper alpha
  drive_toUpper := by
    rintro _ ⟨⟩
    exact toUpper_of_not_isLower (isLower_toUpper letter)

theorem ofUnified_of_isAlpha {letter : Char} (h : letter.isAlpha = true) (rest : List Char) :
    ofUnified (letter :: ':' :: rest) = ofRest (some letter.toUpper) rest := if_pos h

theorem ofUnified_of_not_isAlpha {text : List Char}
    (h : ∀ letter rest, text = letter :: ':' :: rest → letter.isAlpha = false) :
    ofUnified text = ofRest none text := by
  unfold ofUnified
  split
  · rename_i letter rest
    rw [if_neg (by simp [h letter rest rfl])]
  · rfl

/-- Text starts with a letter and a colon, or it is read without a drive. -/
theorem ofUnified_cases (text : List Char) :
    (∃ letter rest, text = letter :: ':' :: rest ∧ letter.isAlpha = true) ∨
      (∀ letter rest, text = letter :: ':' :: rest → letter.isAlpha = false) := by
  by_cases h : ∃ letter rest, text = letter :: ':' :: rest ∧ letter.isAlpha = true
  · exact Or.inl h
  · refine Or.inr fun letter rest eq => Bool.eq_false_iff.2 fun alpha => h ⟨letter, rest, eq, alpha⟩

theorem isNormal_resolve_ofUnified {text : List Char} (clean : '\\' ∉ text) :
    (ofUnified text).resolve.IsNormal := by
  rcases ofUnified_cases text with ⟨letter, rest, rfl, alpha⟩ | noDrive
  · rw [ofUnified_of_isAlpha alpha]
    exact isNormal_resolve_ofRest_some alpha (by simp_all)
  · rw [ofUnified_of_not_isAlpha noDrive]
    exact isNormal_resolve_ofRest_none clean

theorem isNormal_resolve_scan (path : String) : (scan path).resolve.IsNormal :=
  isNormal_resolve_ofUnified (backslash_not_mem_unify _)

/-! ## What is normal is read as it was -/

theorem IsNormal.backslash_not_mem_written {p : PathParts} (h : p.IsNormal) :
    '\\' ∉ p.written := by
  intro mem
  have outside : '\\' ∉ ['/'].intercalate p.segments := by
    intro inside
    rcases Segment.mem_of_mem_intercalate inside with eq | ⟨s, hs, hc⟩
    · exact absurd eq (by decide)
    · exact (h.reduced.isClean s hs).2.2.2 hc
  rcases List.mem_append.1 mem with mem | mem
  · unfold front at mem
    rcases List.mem_append.1 mem with mem | mem
    · cases drive : p.drive with
      | none =>
          rw [drive] at mem
          cases mem
      | some letter =>
          rw [drive, List.mem_cons, List.mem_singleton] at mem
          rcases mem with rfl | mem
          · exact absurd (h.drive_isAlpha _ drive) (by decide)
          · exact absurd mem (by decide)
    · cases rooted : p.rooted <;> simp [rooted] at mem
  · exact outside mem

def tail (p : PathParts) : List Char :=
  (if p.rooted then ['/'] else []) ++ ['/'].intercalate p.segments

theorem written_of_some {p : PathParts} {letter : Char} (h : p.drive = some letter) :
    p.written = letter :: ':' :: p.tail := by
  rw [written, front, h, List.append_assoc]
  rfl

theorem written_of_none {p : PathParts} (h : p.drive = none) : p.written = p.tail := by
  rw [written, front, h, List.append_assoc]
  rfl

theorem walk_splitOn_intercalate {rooted : Bool} {segments : List Segment}
    (h : Reduced rooted segments) :
    (walk rooted ((['/'].intercalate segments).splitOn '/')).reverse = segments := by
  by_cases empty : segments = []
  · rw [empty]
    rfl
  · have clean : ∀ s ∈ segments, '/' ∉ s := fun s hs => (h.isClean s hs).2.2.1
    rw [List.splitOn_intercalate _ clean empty, walk_of_reduced h]

theorem head?_intercalate_ne {rooted : Bool} {segments : List Segment}
    (h : Reduced rooted segments) : (['/'].intercalate segments).head? ≠ some '/' :=
  Segment.head?_intercalate_pieces_ne h.isPiece

/-- Behind a drive, or where no drive is looked for, text is read as it was
written. -/
theorem IsNormal.resolve_ofRest_tail {p : PathParts} (h : p.IsNormal) :
    (ofRest p.drive p.tail).resolve = p := by
  obtain ⟨drive, rooted, segments⟩ := p
  have reduced : Reduced rooted segments := h.reduced
  cases rooted with
  | true =>
      have walked := walk_splitOn_intercalate reduced
      simp only [ofRest, tail, resolve, if_true, List.singleton_append, List.head?_cons,
        decide_true, Segment.splitOn_slash_cons, walk_nil_cons, walked]
  | false =>
      have unrooted := head?_intercalate_ne reduced
      have walked := walk_splitOn_intercalate reduced
      simp [ofRest, tail, resolve, unrooted, walked]

end PathParts

end DiagnosticFeed
