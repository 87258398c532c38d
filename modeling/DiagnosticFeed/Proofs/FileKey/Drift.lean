import DiagnosticFeed.Proofs.FileKey.Reread

/-!
# Keys that drift

The text of a key is itself a path string. Read again it stands for the same
key, but for one reason: a key without a drive may start with a letter and a
colon, since a leading `./` is taken out and nothing is left in front of them.
Such text is read as a drive, and then the key drifts if the letter is in lower
case or if a single dot follows the colon.
-/

namespace DiagnosticFeed

namespace PathParts

open Segment (up here)

/-- Whether text starts with what is read as a drive but is not written as one,
or has a segment right behind the drive that is taken out. -/
def drifts : List Char → Bool
  | letter :: ':' :: rest =>
    letter.isAlpha && (letter.isLower || (rest.splitOn '/').head? = some here)
  | _ => false

theorem IsNormal.head?_splitOn_tail_ne {p : PathParts} (h : p.IsNormal) :
    (p.tail.splitOn '/').head? ≠ some here := by
  obtain ⟨drive, rooted, segments⟩ := p
  have reduced : Reduced rooted segments := h.reduced
  cases rooted with
  | true =>
      simp [tail, Segment.splitOn_slash_cons, here]
  | false =>
      cases segments with
      | nil => simp [tail, here]
      | cons s rest =>
          have clean : ∀ t ∈ s :: rest, '/' ∉ t := fun t ht => (reduced.isClean t ht).2.2.1
          have notHere : s ≠ here := (reduced.isClean s List.mem_cons_self).2.1
          simp [tail, List.splitOn_intercalate _ clean, notHere]

/-- Where a name without a drive starts like one, what is read behind the colon
is what is written there, unless it starts with a single dot. -/
theorem tail_resolve_ofRest (drive : Option Char) {first : Segment} {names : List Segment}
    (clean : first.IsClean) (notHere : first ≠ here) (isName : ∀ s ∈ names, s.IsName) :
    (ofRest drive (['/'].intercalate (first :: names))).resolve.tail =
      ['/'].intercalate (first :: names) := by
  have pieces := Segment.splitOn_intercalate_names clean isName
  have namesReduced : ∀ rooted, Reduced rooted names :=
    fun rooted => ⟨0, names, rfl, isName, fun _ => rfl⟩
  by_cases empty : first = []
  · subst empty
    have walked := walk_of_reduced (namesReduced (names ≠ []))
    cases names with
    | nil => rfl
    | cons s rest =>
        simp_all [ofRest, resolve, tail, walk_nil_cons, List.intercalate_cons_cons]
  · have reduced : Reduced false (first :: names) := by
      by_cases isUp : first = up
      · exact ⟨1, names, by rw [isUp]; rfl, isName, by simp⟩
      · refine ⟨0, first :: names, rfl, ?_, by simp⟩
        simpa using ⟨⟨empty, notHere, isUp, clean⟩, isName⟩
    have unrooted := head?_intercalate_ne reduced
    have walked := walk_of_reduced reduced
    simp [ofRest, resolve, tail, unrooted, pieces, walked]

/-- The first segment of a name without a drive that starts like one. -/
theorem exists_cons_of_intercalate_eq {segments : List Segment} (ne_nil : ∀ s ∈ segments, s ≠ [])
    {letter : Char} {rest : List Char} (eq : ['/'].intercalate segments = letter :: ':' :: rest) :
    ∃ first others, segments = (letter :: ':' :: first) :: others ∧
      rest = ['/'].intercalate (first :: others) := by
  cases segments with
  | nil => cases eq
  | cons s others =>
      rw [Segment.intercalate_cons] at eq
      match s with
      | [] => exact absurd rfl (ne_nil [] List.mem_cons_self)
      | [c] => cases others <;> simp at eq
      | c :: d :: first =>
          rw [List.cons_append, List.cons_append, List.cons.injEq, List.cons.injEq] at eq
          obtain ⟨rfl, rfl, rfl⟩ := eq
          exact ⟨first, others, rfl, (Segment.intercalate_cons first others).symm⟩

theorem IsNormal.exists_names {p : PathParts} (h : p.IsNormal) (noDrive : p.drive = none)
    {letter : Char} {rest : List Char} (eq : p.written = letter :: ':' :: rest)
    (alpha : letter.isAlpha = true) :
    ∃ first names, rest = ['/'].intercalate (first :: names) ∧ Segment.IsClean first ∧
      ∀ s ∈ names, Segment.IsName s := by
  obtain ⟨drive, rooted, segments⟩ := p
  have reduced : Reduced rooted segments := h.reduced
  rw [written_of_none noDrive] at eq
  cases rooted with
  | true =>
      have slash : '/' = letter := (List.cons.inj eq).1
      rw [← slash] at alpha
      exact absurd alpha (by decide)
  | false =>
      obtain ⟨first, others, rfl, restEq⟩ :=
        exists_cons_of_intercalate_eq (fun s hs => (reduced.isClean s hs).1) eq
      have clean := (reduced.isClean _ List.mem_cons_self).2.2
      obtain ⟨climbs, names, segmentsEq, isName, -⟩ := reduced
      refine ⟨first, others, restEq, ?_, ?_⟩
      · simp_all [Segment.IsClean]
      · cases climbs with
        | succ n => simp [List.replicate_succ, up] at segmentsEq
        | zero =>
            intro s hs
            refine isName s ?_
            rw [List.replicate_zero, List.nil_append] at segmentsEq
            rw [← segmentsEq]
            exact List.mem_cons_of_mem _ hs

theorem IsNormal.tail_resolve_of_not_here {p : PathParts} (h : p.IsNormal)
    {letter : Char} {rest : List Char} (eq : p.written = letter :: ':' :: rest)
    (alpha : letter.isAlpha = true) (notHere : (rest.splitOn '/').head? ≠ some here) :
    (ofRest (some letter) rest).resolve.tail = rest := by
  cases drive : p.drive with
  | some letter' =>
      rw [written_of_some drive, List.cons.injEq, List.cons.injEq] at eq
      obtain ⟨rfl, -, rfl⟩ := eq
      rw [← drive, h.resolve_ofRest_tail]
  | none =>
      obtain ⟨first, names, rfl, clean, isName⟩ := h.exists_names drive eq alpha
      rw [Segment.splitOn_intercalate_names clean isName, List.head?_cons] at notHere
      exact tail_resolve_ofRest _ clean (fun eq => notHere (congrArg some eq)) isName

/-- Text that starts like a drive is read as it is written exactly if it does
not drift. -/
theorem IsNormal.written_resolve_ofRest_some {p : PathParts} (h : p.IsNormal)
    {letter : Char} {rest : List Char} (eq : p.written = letter :: ':' :: rest)
    (alpha : letter.isAlpha = true) :
    (ofRest (some letter.toUpper) rest).resolve.written = letter :: ':' :: rest ↔
      drifts (letter :: ':' :: rest) = false := by
  have written : (ofRest (some letter.toUpper) rest).resolve.written =
      letter.toUpper :: ':' :: (ofRest (some letter.toUpper) rest).resolve.tail :=
    written_of_some rfl
  rw [written, List.cons.injEq, List.cons.injEq]
  constructor
  · rintro ⟨upper, -, same⟩
    have clean : '\\' ∉ rest := by
      intro mem
      refine h.backslash_not_mem_written ?_
      rw [eq]
      simp [mem]
    have notLower : letter.isLower = false := by
      rw [← upper]
      exact isLower_toUpper letter
    have notHere := (isNormal_resolve_ofRest_some alpha clean).head?_splitOn_tail_ne
    rw [same] at notHere
    simp [drifts, alpha, notLower, notHere]
  · intro stays
    obtain ⟨notLower, notHere⟩ :
        letter.isLower = false ∧ (rest.splitOn '/').head? ≠ some here := by
      simpa [drifts, alpha] using stays
    have upper : letter.toUpper = letter := toUpper_of_not_isLower notLower
    rw [upper]
    exact ⟨rfl, rfl, h.tail_resolve_of_not_here eq alpha notHere⟩

/-- The text of normal parts is read as it is written exactly if it does not
drift. -/
theorem IsNormal.written_resolve_ofUnified {p : PathParts} (h : p.IsNormal) :
    (ofUnified p.written).resolve.written = p.written ↔ drifts p.written = false := by
  rcases ofUnified_cases p.written with ⟨letter, rest, eq, alpha⟩ | noLetter
  · rw [eq, ofUnified_of_isAlpha alpha]
    exact h.written_resolve_ofRest_some eq alpha
  · have noDrive : p.drive = none := by
      cases drive : p.drive with
      | none => rfl
      | some letter =>
          have notAlpha := noLetter letter p.tail (written_of_some drive)
          rw [h.drive_isAlpha letter drive] at notAlpha
          cases notAlpha
    have written : p.written = p.tail := written_of_none noDrive
    have stays : drifts p.written = false := by
      unfold drifts
      split
      · rename_i letter rest eq
        rw [noLetter letter rest eq, Bool.false_and]
      · rfl
    rw [ofUnified_of_not_isAlpha noLetter]
    refine iff_of_true ?_ stays
    rw [written, ← noDrive, h.resolve_ofRest_tail, written]

end PathParts

namespace FileKey

open PathParts

/-- Whether the text of a key does not stand for the key. -/
def drifts (k : FileKey) : Bool := PathParts.drifts k.chars

theorem toList_normalText (path : String) :
    (normalText path).toList =
      if (scan path).resolve.written = [] then ['.'] else (scan path).resolve.written := by
  unfold normalText
  cases (scan path).resolve.written with
  | nil => rfl
  | cons c text => simp

theorem scan_text {k : FileKey} (clean : '\\' ∉ k.chars) : scan k.text = ofUnified k.chars :=
  congrArg ofUnified (unify_of_backslash_not_mem clean)

/-- The text of a key stands for the key exactly if the key does not drift. -/
theorem ofPath_text_iff (k : FileKey) : ofPath k.text = k ↔ k.drifts = false := by
  obtain ⟨path, rfl⟩ := exists_ofPath k
  have normal := isNormal_resolve_scan path
  have chars := toList_normalText path
  by_cases nothing : (scan path).resolve.written = []
  · rw [if_pos nothing] at chars
    have dot : ofPath path = ofPath "." := ext (String.toList_injective chars)
    rw [dot]
    decide +kernel
  · rw [if_neg nothing] at chars
    have charsEq : (ofPath path).chars = (scan path).resolve.written := chars
    have clean : '\\' ∉ (ofPath path).chars := charsEq ▸ normal.backslash_not_mem_written
    have again := toList_normalText (ofPath path).text
    rw [scan_text clean, charsEq] at again
    rw [FileKey.ext_iff, ← String.toList_inj, text_ofPath, again, drifts, charsEq,
      show (ofPath path).text.toList = _ from chars]
    by_cases empty : (ofUnified (scan path).resolve.written).resolve.written = []
    · -- only a single dot is read as nothing, and normal parts are not written so
      rw [if_pos empty]
      constructor
      · intro dot
        rw [← dot]
        rfl
      · intro stays
        exact absurd ((normal.written_resolve_ofUnified.2 stays).symm.trans empty) nothing
    · rw [if_neg empty]
      exact normal.written_resolve_ofUnified

end FileKey

end DiagnosticFeed
