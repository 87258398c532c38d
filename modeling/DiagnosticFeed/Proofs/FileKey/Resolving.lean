import DiagnosticFeed.Proofs.FileKey.Rooted

/-!
# Paths that go on from rooted paths

A path that goes on from a rooted one behind a slash is on the drive of that one,
and its segments are walked after those of that one (`ofUnified_append_slash`).
Of the first path only the place matters where its own walk ends, so the text of
its key will do in its stead (`ofPath_append_slash`). No step up leads out of the
root or to another drive.
-/

namespace DiagnosticFeed

namespace PathParts

variable {p q : PathParts}

def goOn (p : PathParts) (more : List Segment) : PathParts :=
  { p with segments := p.segments ++ more }

@[simp]
theorem drive_goOn (p : PathParts) (more : List Segment) : (p.goOn more).drive = p.drive := rfl

@[simp]
theorem rooted_goOn (p : PathParts) (more : List Segment) : (p.goOn more).rooted = p.rooted := rfl

@[simp]
theorem drive_resolve (p : PathParts) : p.resolve.drive = p.drive := rfl

@[simp]
theorem rooted_resolve (p : PathParts) : p.resolve.rooted = p.rooted := rfl

/-- A path that goes on is walked on from the place that the path leads to. -/
theorem resolve_goOn_congr (h : p.resolve = q.resolve) (more : List Segment) :
    (p.goOn more).resolve = (q.goOn more).resolve := by
  obtain ⟨drive, rooted, segments⟩ := p
  obtain ⟨drive', rooted', segments'⟩ := q
  obtain ⟨rfl, rfl, walked⟩ : drive = drive' ∧ rooted = rooted' ∧
      walk rooted segments = walk rooted' segments' := by
    simpa [resolve] using h
  simp only [goOn, resolve, walk, List.foldl_append] at walked ⊢
  rw [walked]

theorem ofRest_append_slash (drive : Option Char) {rest : List Char}
    (slash : rest.head? = some '/') (more : List Char) :
    ofRest drive (rest ++ '/' :: more) = (ofRest drive rest).goOn (more.splitOn '/') := by
  obtain ⟨text, rfl⟩ := List.head?_eq_some_iff.1 slash
  simp only [ofRest, goOn, List.splitOn_append_cons_self]
  rfl

/-- Behind a rooted path a slash only adds segments: no drive is looked for. -/
theorem ofUnified_append_slash {text : List Char} (rooted : (ofUnified text).rooted = true)
    (more : List Char) :
    ofUnified (text ++ '/' :: more) = (ofUnified text).goOn (more.splitOn '/') := by
  rw [rooted_ofUnified_iff] at rooted
  rcases ofUnified_cases text with ⟨letter, rest, rfl, alpha⟩ | noDrive
  · rw [behindDrive_of_isAlpha alpha] at rooted
    rw [ofUnified_of_isAlpha alpha, ← ofRest_append_slash _ rooted]
    exact ofUnified_of_isAlpha alpha _
  · rw [behindDrive_of_not_isAlpha noDrive] at rooted
    rw [ofUnified_of_not_isAlpha noDrive, ← ofRest_append_slash _ rooted]
    refine ofUnified_of_not_isAlpha fun letter rest eq => ?_
    obtain ⟨behind, rfl⟩ := List.head?_eq_some_iff.1 rooted
    rw [← (List.cons.inj eq).1]
    rfl

/-- Rooted parts are read as they are written: nothing that they are written with
can be taken for a drive. -/
theorem IsNormal.resolve_ofUnified_written (h : p.IsNormal) (rooted : p.rooted = true) :
    (ofUnified p.written).resolve = p := by
  have read : ofUnified p.written = ofRest p.drive p.tail := by
    cases drive : p.drive with
    | some letter =>
        rw [written_of_some drive, ofUnified_of_isAlpha (h.drive_isAlpha letter drive),
          h.drive_toUpper letter drive]
    | none =>
        rw [written_of_none drive]
        refine ofUnified_of_not_isAlpha fun letter rest eq => ?_
        rw [tail, rooted] at eq
        rw [← (List.cons.inj eq).1]
        rfl
  rw [read, h.resolve_ofRest_tail]

theorem scan_append_slash (a b : String) :
    scan (a ++ "/" ++ b) = ofUnified (a.toList.map unify ++ '/' :: b.toList.map unify) := by
  simp [scan, unify]

end PathParts

namespace FileKey

open PathParts

/-- On the drive with the given letter, or on none, a key is rooted. -/
def IsRootedOn (k : FileKey) : Option Char → Prop
  | some letter => [letter, ':', '/'] <+: k.chars
  | none => ['/'] <+: k.chars

theorem ofPath_eq_of_resolve_eq {p q : String} (h : (scan p).resolve = (scan q).resolve) :
    ofPath p = ofPath q := by
  refine ext ?_
  rw [text_ofPath, text_ofPath, normalText, normalText, h]

theorem chars_ofPath_of_rooted {path : String} (rooted : (scan path).rooted = true) :
    (ofPath path).chars = (scan path).resolve.written := by
  have some_text : (scan path).resolve.written ≠ [] := by
    simp [written, front, rooted]
  rw [chars, text_ofPath, toList_normalText, if_neg some_text]

theorem isRootedOn_ofPath {path : String} (rooted : (scan path).rooted = true) :
    (ofPath path).IsRootedOn (scan path).drive := by
  have slash : (scan path).resolve.tail =
      '/' :: ['/'].intercalate (scan path).resolve.segments := by
    rw [tail, rooted_resolve, rooted]
    rfl
  rw [IsRootedOn.eq_def, chars_ofPath_of_rooted rooted]
  cases drive : (scan path).drive with
  | some letter =>
      rw [written_of_some ((drive_resolve _).trans drive), slash]
      exact ⟨_, rfl⟩
  | none =>
      rw [written_of_none ((drive_resolve _).trans drive), slash]
      exact ⟨_, rfl⟩

/-- The text of a rooted key is read as the place that the key stands for. -/
theorem resolve_ofUnified_chars {path : String} (rooted : (scan path).rooted = true) :
    (ofUnified (ofPath path).chars).resolve = (scan path).resolve := by
  rw [chars_ofPath_of_rooted rooted]
  refine (isNormal_resolve_scan path).resolve_ofUnified_written ?_
  rw [rooted_resolve, rooted]

theorem scan_text_append_slash {path : String} (rooted : (scan path).rooted = true) (b : String) :
    scan ((ofPath path).text ++ "/" ++ b) =
      (ofUnified (ofPath path).chars).goOn ((b.toList.map unify).splitOn '/') := by
  have clean : '\\' ∉ (ofPath path).chars := by
    rw [chars_ofPath_of_rooted rooted]
    exact (isNormal_resolve_scan path).backslash_not_mem_written
  have again : (ofUnified (ofPath path).chars).rooted = true := by
    rw [← rooted_resolve, resolve_ofUnified_chars rooted, rooted_resolve, rooted]
  rw [scan_append_slash, ← chars, unify_of_backslash_not_mem clean,
    ofUnified_append_slash again]

/-- A path that goes on from a rooted one has the key of the path that goes on
from its key, and is rooted on the same drive. -/
theorem ofPath_append_slash {a : String} (rooted : StartsRooted a) (b : String) :
    ofPath (a ++ "/" ++ b) = ofPath ((ofPath a).text ++ "/" ++ b) ∧
      (ofPath (a ++ "/" ++ b)).isRooted = true ∧
        (ofPath (a ++ "/" ++ b)).IsRootedOn (scan a).drive := by
  rw [← rooted_scan_iff] at rooted
  have goesOn : scan (a ++ "/" ++ b) = (scan a).goOn ((b.toList.map unify).splitOn '/') := by
    rw [scan_append_slash, ofUnified_append_slash rooted, scan]
  have rootedBehind : (scan (a ++ "/" ++ b)).rooted = true := by
    rw [goesOn, rooted_goOn, rooted]
  refine ⟨ofPath_eq_of_resolve_eq ?_, ?_, ?_⟩
  · rw [goesOn, scan_text_append_slash rooted]
    exact resolve_goOn_congr (resolve_ofUnified_chars rooted).symm _
  · rw [isRooted_ofPath, (isNormal_resolve_scan _).rootedText_written_iff, rooted_resolve]
    exact Or.inl rootedBehind
  · have sameDrive : (scan (a ++ "/" ++ b)).drive = (scan a).drive := by
      rw [goesOn, drive_goOn]
    rw [← sameDrive]
    exact isRootedOn_ofPath rootedBehind

/-- Both paths have more steps up than names, and the second one starts like a
drive. -/
theorem ofPath_append_slash_up :
    StartsRooted "c:\\work\\..\\.." ∧
      ofPath ("c:\\work\\..\\.." ++ "/" ++ "d:/../../../x") =
        ofPath ((ofPath "c:\\work\\..\\..").text ++ "/" ++ "d:/../../../x") ∧
        (ofPath ("c:\\work\\..\\.." ++ "/" ++ "d:/../../../x")).isRooted = true ∧
          (ofPath ("c:\\work\\..\\.." ++ "/" ++ "d:/../../../x")).IsRootedOn (some 'C') := by
  have rooted : StartsRooted "c:\\work\\..\\.." := by decide +kernel
  have drive : (scan "c:\\work\\..\\..").drive = some 'C' := by decide +kernel
  obtain ⟨same, isRooted, rootedOn⟩ := ofPath_append_slash rooted "d:/../../../x"
  rw [drive] at rootedOn
  exact ⟨rooted, same, isRooted, rootedOn⟩

end FileKey

end DiagnosticFeed
