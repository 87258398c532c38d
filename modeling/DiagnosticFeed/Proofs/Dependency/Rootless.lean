import DiagnosticFeed.Proofs.Dependency.Roots
import DiagnosticFeed.Proofs.FileKey.Components

/-!
# Third-party code with roots and without

With roots the text of a directory has to stand right behind the root, and
characters are compared. Without roots a directory may be anywhere among the
folders on the way to the file, and components are compared. So roots only narrow
down what is covered (`covers_rootless_of_covers`): what is left of a file below a
root is some of its last components, and where a directory and a slash stand in
front of the rest, the directory is made of folders. The one exception is the root
of a drive, the only key that has a slash behind its last component.
-/

namespace DiagnosticFeed

namespace Segment

theorem hasRun_iff_isInfix {run l : List Segment} : hasRun run l = true ↔ run <:+: l := by
  induction l with
  | nil => rw [hasRun, List.isEmpty_iff, List.infix_nil]
  | cons s rest ih =>
      rw [hasRun, Bool.or_eq_true, List.isPrefixOf_iff_prefix, ih, List.infix_cons_iff]

end Segment

namespace FileKey

open PathParts Segment

variable {k root : FileKey}

/-- A drive with the slash of its root, and nothing behind it. -/
def IsDriveRoot (k : FileKey) : Prop :=
  ∃ letter : Char, letter.isAlpha = true ∧ k.chars = [letter, ':', '/']

/-- Only a drive stands in front of a slash that nothing follows. -/
theorem isDriveRoot_of_chars_eq {letter : Char} (eq : k.chars = [letter, ':', '/']) :
    k.IsDriveRoot := by
  have notDot : k.text ≠ "." := by
    intro dot
    rw [chars, dot] at eq
    cases eq
  obtain ⟨p, normal, written⟩ := exists_written notDot
  rw [eq] at written
  cases drive : p.drive with
  | none =>
      rw [written_of_none drive] at written
      have nothing := normal.eq_nil_of_tail_eq (a := [letter, ':']) written.symm
      cases nothing
  | some letter' =>
      rw [written_of_some drive, List.cons.injEq] at written
      exact ⟨letter, written.1 ▸ normal.drive_isAlpha letter' drive, eq⟩

/-- A key without components is the root that belongs to no drive. -/
theorem chars_eq_of_components_eq_nil (bare : k.components = []) : k.chars = ['/'] := by
  rcases k.chars_cases with joined | ⟨letter, notSlash, drive⟩
  · rw [joined, lead_of_components_eq_nil joined bare, bare]
    rfl
  · rw [components_of_bare notSlash drive] at bare
    cases bare

/-- A key is split into its components, behind an empty piece if it starts with a
slash. -/
theorem splitOn_chars (notDriveRoot : ¬k.IsDriveRoot) (some_component : k.components ≠ []) :
    k.chars.splitOn '/' = (if k.chars.head? = some '/' then [[]] else []) ++ k.components := by
  rcases k.chars_cases with joined | ⟨letter, -, bare⟩
  · have noSlash : ∀ s ∈ k.components, '/' ∉ s := fun s hs => (isPiece_of_mem_components hs).noSlash
    have read := List.splitOn_intercalate '/' noSlash some_component
    by_cases slash : k.chars.head? = some '/'
    · rw [lead, if_pos slash] at joined
      rw [if_pos slash, joined, List.singleton_append, splitOn_slash_cons, read]
      rfl
    · rw [lead, if_neg slash] at joined
      rw [if_neg slash, joined, List.nil_append, read, List.nil_append]
  · exact absurd (isDriveRoot_of_chars_eq bare) notDriveRoot

/-- No piece behind a slash is empty, unless the slash is all of the key. -/
theorem pieces_eq_splitOn (notDriveRoot : ¬k.IsDriveRoot) {a b : List Char}
    (eq : k.chars = a ++ '/' :: b) (more : a ≠ [] ∨ b ≠ []) : pieces b = b.splitOn '/' := by
  have some_component : k.components ≠ [] := by
    intro bare
    rw [chars_eq_of_components_eq_nil bare, eq_comm, List.append_eq_singleton_iff] at eq
    simp_all
  have split := splitOn_chars notDriveRoot some_component
  obtain ⟨first, others, front⟩ := List.exists_cons_of_ne_nil (List.splitOn_ne_nil '/' a)
  rw [eq, List.splitOn_append_cons_self, front, List.cons_append] at split
  -- the empty piece in front, if there is one, is not behind the slash
  have behind : b.splitOn '/' ⊆ k.components := by
    split at split
    · have components : others ++ b.splitOn '/' = k.components := (List.cons.inj split).2
      rw [← components]
      exact List.subset_append_right _ _
    · have components : first :: (others ++ b.splitOn '/') = k.components := split
      rw [← components]
      exact List.subset_cons_of_subset _ (List.subset_append_right _ _)
  refine List.filter_eq_self.2 fun s hs => ?_
  simpa using (isPiece_of_mem_components (behind hs)).ne_nil

/-- What is left of a key below a root is the end of its text, and the components
in it are the last ones of the key. -/
theorem suffix_of_below? {rest : List Char} (left : k.below? root = some rest) :
    rest <:+ k.chars ∧ pieces rest <:+ k.components := by
  by_cases dot : root.text = "."
  · rw [below?_of_dot dot] at left
    split at left
    · cases left
    · rw [← Option.some_inj.1 left]
      exact ⟨List.suffix_refl _, List.suffix_refl _⟩
  · refine ⟨?_, ⟨_, (components_of_below? dot left).symm⟩⟩
    rcases cut_of_below? dot left with ⟨-, rfl⟩ | ⟨front, eq, -⟩
    · exact List.nil_suffix
    · exact ⟨front ++ ['/'], by rw [eq, List.append_assoc, List.singleton_append]⟩

end FileKey

namespace DependencyArea

open Segment

variable {area : DependencyArea} {file d : FileKey}

theorem relative_suffix (area : DependencyArea) (file : FileKey) :
    area.relative file <:+ file.chars ∧ pieces (area.relative file) <:+ file.components := by
  rw [relative]
  cases found : area.roots.findSome? file.below? with
  | none => exact ⟨List.suffix_refl _, List.suffix_refl _⟩
  | some rest =>
      obtain ⟨root, -, left⟩ := List.exists_of_findSome?_eq_some found
      exact FileKey.suffix_of_below? left

/-- A directory that leads into what is seen of a file is made of folders that the
file is in. -/
theorem isInfix_of_leadsInto (notDriveRoot : ¬file.IsDriveRoot)
    (leads : leadsInto d (area.relative file) = true) :
    d.components ≠ [] ∧ d.components <:+: file.components.dropLast := by
  obtain ⟨inside, seen⟩ := leadsInto_iff.1 leads
  obtain ⟨⟨front, text⟩, before, components⟩ := relative_suffix area file
  rw [seen] at text components
  constructor
  · -- a directory that is a slash alone would leave an empty piece behind itself
    intro bare
    rw [FileKey.chars_eq_of_components_eq_nil bare, List.singleton_append] at text
    have full := FileKey.pieces_eq_splitOn notDriveRoot text.symm (Or.inr (List.cons_ne_nil _ _))
    have empty : [] ∈ pieces ('/' :: inside) := by
      rw [full, splitOn_slash_cons]
      exact List.mem_cons_self
    exact (isPiece_of_mem_pieces empty).ne_nil rfl
  · have some_char : front ++ d.chars ≠ [] := List.append_ne_nil_of_right_ne_nil _ d.chars_ne_nil
    have some_piece : pieces inside ≠ [] := by
      rw [← List.append_assoc] at text
      rw [FileKey.pieces_eq_splitOn notDriveRoot text.symm (Or.inl some_char)]
      exact List.splitOn_ne_nil '/' inside
    refine ⟨before, (pieces inside).dropLast, ?_⟩
    rw [← components, pieces_append_slash, ← List.append_assoc,
      List.dropLast_append_of_ne_nil some_piece]
    rfl

/-- The same directories, wherever they are. -/
def rootless (area : DependencyArea) : DependencyArea := ⟨[], area.directories⟩

/-- What is covered with roots is covered without roots, but for the root of a
drive. -/
theorem covers_rootless_of_covers (notDriveRoot : ¬file.IsDriveRoot)
    (covered : area.covers file = true) : area.rootless.covers file = true := by
  cases none' : area.roots.isEmpty with
  | true =>
      rw [covers, none', if_pos rfl] at covered
      exact covered
  | false =>
      rw [covers, none', if_neg Bool.false_ne_true, List.any_eq_true] at covered
      obtain ⟨d, mem, leads⟩ := covered
      obtain ⟨some_component, infix'⟩ := isInfix_of_leadsInto notDriveRoot leads
      refine List.any_eq_true.2 ⟨d, mem, ?_⟩
      rw [Bool.and_eq_true, hasRun_iff_isInfix]
      exact ⟨by simpa using some_component, infix'⟩

/-- A directory of two folders, in the second of the roots. -/
theorem covers_rootless_of_covers_vendored :
    (¬(FileKey.ofPath "c:\\w\\vendor\\lib\\a.ts").IsDriveRoot ∧
        (ofPaths ["/p", "C:/w"] ["vendor/./lib"]).covers (.ofPath "c:\\w\\vendor\\lib\\a.ts") =
          true) ∧
      (ofPaths ["/p", "C:/w"] ["vendor/./lib"]).rootless.covers
        (.ofPath "c:\\w\\vendor\\lib\\a.ts") = true := by
  have notDriveRoot : ¬(FileKey.ofPath "c:\\w\\vendor\\lib\\a.ts").IsDriveRoot := by
    rintro ⟨letter, -, eq⟩
    have long : (FileKey.ofPath "c:\\w\\vendor\\lib\\a.ts").chars.length = 20 := by decide +kernel
    rw [eq] at long
    cases long
  have covered : (ofPaths ["/p", "C:/w"] ["vendor/./lib"]).covers
      (.ofPath "c:\\w\\vendor\\lib\\a.ts") = true := by decide +kernel
  exact ⟨⟨notDriveRoot, covered⟩, covers_rootless_of_covers notDriveRoot covered⟩

/-- The slash of a drive root is taken for one behind a folder. -/
example : (ofPaths ["/p"] ["C:"]).covers (.ofPath "C:/") = true ∧
    (ofPaths ["/p"] ["C:"]).rootless.covers (.ofPath "C:/") = false := by decide +kernel

end DependencyArea

end DiagnosticFeed
