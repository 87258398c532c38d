import DiagnosticFeed.Proofs.FileKey.Nesting

/-!
# Which keys are rooted

A path is rooted if a separator comes first, behind its drive if it has one. The
key of such a path is rooted, and other keys are not, but for one case
(`isRooted_ofPath_iff`): a path without a drive may resolve to a name of one
ASCII character and a colon and names below it. The text of its key then looks
like a drive and a root behind it. Either the character is no letter, so that the
path never had a drive, or it is a letter and what stood in front of it is taken
out.
-/

namespace DiagnosticFeed

namespace PathParts

open FileKey (rootedText rootedText_append_slash_iff)

/-! ## Rooted paths -/

/-- What follows the drive of a path, or the whole path if it has no drive. -/
def behindDrive : List Char → List Char
  | letter :: ':' :: rest => if letter.isAlpha then rest else letter :: ':' :: rest
  | text => text

/-- A separator comes first in the path, behind its drive if it has one. -/
def StartsRooted (path : String) : Prop :=
  (behindDrive path.toList).head? = some '/' ∨ (behindDrive path.toList).head? = some '\\'

instance (path : String) : Decidable (StartsRooted path) := instDecidableOr

theorem behindDrive_of_isAlpha {letter : Char} (h : letter.isAlpha = true) (rest : List Char) :
    behindDrive (letter :: ':' :: rest) = rest := if_pos h

theorem behindDrive_of_not_isAlpha {text : List Char}
    (h : ∀ letter rest, text = letter :: ':' :: rest → letter.isAlpha = false) :
    behindDrive text = text := by
  unfold behindDrive
  split
  · rename_i letter rest
    rw [if_neg (by simp [h letter rest rfl])]
  · rfl

theorem unify_eq_slash_iff {c : Char} : unify c = '/' ↔ c = '/' ∨ c = '\\' := by
  unfold unify
  split <;> simp_all

theorem unify_eq_colon_iff {c : Char} : unify c = ':' ↔ c = ':' := by
  unfold unify
  split
  · rename_i backslash
    simp [backslash]
  · rfl

theorem isAlpha_unify (c : Char) : (unify c).isAlpha = c.isAlpha := by
  unfold unify
  split
  · rename_i backslash
    rw [backslash]
    rfl
  · rfl

theorem behindDrive_map_unify (text : List Char) :
    behindDrive (text.map unify) = (behindDrive text).map unify := by
  rcases ofUnified_cases text with ⟨letter, rest, rfl, alpha⟩ | noDrive
  · rw [behindDrive_of_isAlpha alpha]
    exact behindDrive_of_isAlpha ((isAlpha_unify letter).trans alpha) _
  · rw [behindDrive_of_not_isAlpha noDrive]
    refine behindDrive_of_not_isAlpha fun letter rest eq => ?_
    match text with
    | [] | [_] => simp at eq
    | c :: d :: text =>
        obtain ⟨rfl, colon, -⟩ : unify c = letter ∧ unify d = ':' ∧ text.map unify = rest := by
          simpa using eq
        rw [isAlpha_unify]
        exact noDrive c text (by rw [unify_eq_colon_iff.1 colon])

theorem rooted_ofUnified_iff (text : List Char) :
    (ofUnified text).rooted = true ↔ (behindDrive text).head? = some '/' := by
  rcases ofUnified_cases text with ⟨letter, rest, rfl, alpha⟩ | noDrive
  · rw [ofUnified_of_isAlpha alpha, behindDrive_of_isAlpha alpha]
    exact decide_eq_true_iff
  · rw [ofUnified_of_not_isAlpha noDrive, behindDrive_of_not_isAlpha noDrive]
    exact decide_eq_true_iff

theorem rooted_scan_iff (path : String) : (scan path).rooted = true ↔ StartsRooted path := by
  rw [scan, rooted_ofUnified_iff, behindDrive_map_unify, List.head?_map, StartsRooted]
  cases (behindDrive path.toList).head? with
  | none => simp
  | some c => simp [unify_eq_slash_iff]

/-! ## Rooted text -/

theorem rootedText_of_slash_notMem {text : List Char} (h : '/' ∉ text) :
    rootedText text = false := by
  unfold rootedText
  split <;> simp_all

/-- Segments are written as rooted text only if the first of them looks like a
drive and is not the last. -/
theorem rootedText_intercalate_iff {segments : List Segment} (h : Reduced false segments) :
    rootedText (['/'].intercalate segments) = true ↔
      ∃ letter next rest, letter.toNat < 128 ∧ segments = [letter, ':'] :: next :: rest := by
  match segments with
  | [] => simp [rootedText]
  | [s] =>
      have unrooted := rootedText_of_slash_notMem (h.isClean s List.mem_cons_self).2.2.1
      simp [unrooted]
  | s :: next :: rest =>
      obtain ⟨ne_nil, -, noSlash, -⟩ := h.isClean s List.mem_cons_self
      rw [List.intercalate_cons_cons, List.append_assoc, List.singleton_append,
        rootedText_append_slash_iff ne_nil, rootedText_of_slash_notMem noSlash]
      constructor
      · rintro (h | ⟨letter, ascii, rfl⟩)
        · cases h
        · exact ⟨letter, next, rest, ascii, rfl⟩
      · rintro ⟨letter, _, _, ascii, eq⟩
        exact Or.inr ⟨letter, ascii, (List.cons.inj eq).1⟩

theorem toNat_lt_of_isAlpha {letter : Char} (h : letter.isAlpha = true) : letter.toNat < 128 := by
  have below : ∀ last : UInt32, last.toNat < 128 → letter.val ≤ last → letter.toNat < 128 :=
    fun last ascii le => Nat.lt_of_le_of_lt (UInt32.le_iff_toNat_le.1 le) ascii
  rcases isAlpha_iff.1 h with upper | lower
  · exact below 'Z'.val (by decide) (isUpper_iff.1 upper).2
  · exact below 'z'.val (by decide) (isLower_iff.1 lower).2

/-- Behind a drive text is rooted if a slash comes first. -/
theorem rootedText_drive_iff {letter : Char} (alpha : letter.isAlpha = true) (rest : List Char) :
    rootedText (letter :: ':' :: rest) = true ↔ rest.head? = some '/' := by
  have ascii := toNat_lt_of_isAlpha alpha
  have notSlash : letter ≠ '/' := by
    rintro rfl
    cases alpha
  cases rest with
  | nil => simp [rootedText, notSlash]
  | cons c rest => by_cases slash : c = '/' <;> simp [rootedText, notSlash, slash, ascii]

variable {p : PathParts}

/-- Not rooted, but written as if there were a drive and a root behind it. -/
structure LooksRooted (p : PathParts) : Prop where
  drive : p.drive = none
  unrooted : p.rooted = false
  segments : ∃ letter next rest, letter.toNat < 128 ∧ p.segments = [letter, ':'] :: next :: rest

/-- Normal parts are written as rooted text if they are rooted or look so. -/
theorem IsNormal.rootedText_written_iff (h : p.IsNormal) :
    rootedText p.written = true ↔ p.rooted = true ∨ p.LooksRooted := by
  obtain ⟨drive, rooted, segments⟩ := p
  have reduced : Reduced rooted segments := h.reduced
  cases drive with
  | some letter =>
      have noLook : ¬(⟨some letter, rooted, segments⟩ : PathParts).LooksRooted :=
        fun look => nomatch look.drive
      rw [written_of_some rfl, rootedText_drive_iff (h.drive_isAlpha letter rfl),
        or_iff_left noLook]
      cases rooted with
      | true => simp [tail]
      | false => simpa [tail] using head?_intercalate_ne reduced
  | none =>
      rw [written_of_none rfl]
      cases rooted with
      | true => exact iff_of_true rfl (Or.inl rfl)
      | false =>
          refine (rootedText_intercalate_iff reduced).trans ⟨fun names => ?_, ?_⟩
          · exact Or.inr ⟨rfl, rfl, names⟩
          · rintro (rooted | look)
            · cases rooted
            · exact look.segments

end PathParts

namespace FileKey

open PathParts

theorem isRooted_ofPath (path : String) :
    (ofPath path).isRooted = rootedText (scan path).resolve.written := by
  rw [isRooted, chars, text_ofPath, toList_normalText]
  split
  · rename_i nothing
    rw [nothing]
    rfl
  · rfl

/-- The key of a path is rooted if the path is, or if what it resolves to only
looks so. It is the other paths whose keys lie within the single dot. -/
theorem isRooted_ofPath_iff (path : String) :
    ((ofPath path).isRooted = true ↔ StartsRooted path ∨ (scan path).resolve.LooksRooted) ∧
      ((ofPath path).isWithin (ofPath ".") = true ↔
        ¬(StartsRooted path ∨ (scan path).resolve.LooksRooted)) ∧
        ((scan path).resolve.LooksRooted → ¬StartsRooted path) := by
  have rooted : (scan path).resolve.rooted = true ↔ StartsRooted path := rooted_scan_iff path
  have isRooted : (ofPath path).isRooted = true ↔
      StartsRooted path ∨ (scan path).resolve.LooksRooted := by
    rw [isRooted_ofPath, (isNormal_resolve_scan path).rootedText_written_iff, rooted]
  have dot : (ofPath ".").text = "." := by decide +kernel
  refine ⟨isRooted, ?_, fun look starts => ?_⟩
  · rw [isWithin_of_dot dot, Bool.not_eq_true', ← Bool.not_eq_true, isRooted]
  · have unrooted := look.unrooted
    rw [rooted.2 starts] at unrooted
    cases unrooted

/-- No drive is a digit, and none follows a dot and a separator, so that neither
of these paths is rooted. Both keys are, and do not lie within the single dot. -/
theorem not_startsRooted_isRooted :
    (¬StartsRooted "1:/x" ∧ (ofPath "1:/x").isRooted = true ∧
        (ofPath "1:/x").isWithin (ofPath ".") = false) ∧
      ¬StartsRooted "./c:/x" ∧ (ofPath "./c:/x").isRooted = true ∧
        (ofPath "./c:/x").isWithin (ofPath ".") = false := by
  decide +kernel

end FileKey

end DiagnosticFeed
