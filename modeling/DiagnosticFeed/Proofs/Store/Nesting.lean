import DiagnosticFeed.Proofs.FileKey.Nesting
import DiagnosticFeed.Proofs.Store.Outside

/-!
# Clearing a project around another one

Projects are nested as their keys are. To clear the outer one of two projects
takes away what clearing the inner one does, unless the outer one is the single
dot and the inner one looks like a drive: what goes on from such a project is
rooted, and nothing that is rooted lies within the single dot.
-/

namespace DiagnosticFeed

namespace Store

/-- A batch is held that clearing a project takes away. -/
def LosesTo (s : Store) (project : String) (tag : Tag) (key : FileKey) : Prop :=
  (∃ batch, s.batchAt? tag key = some batch) ∧
    (s.clear ⟨some project, none⟩).batchAt? tag key = none

theorem losesTo_iff {s : Store} {project : String} {tag : Tag} {key : FileKey} :
    s.LosesTo project tag key ↔
      (∃ batch, s.batchAt? tag key = some batch) ∧ key.isWithin (.ofPath project) = true :=
  and_congr_right fun ⟨_, held⟩ => batchAt?_clear_project_eq_none_iff held project

/-- How keys lie within each other, and what this makes of clearing the outer one
of two projects. -/
structure Nesting (a b c : FileKey) (inner outer : String) : Prop where
  refl : a.isWithin a = true
  antisymm : a.isWithin b = true → b.isWithin a = true → a = b
  trans_iff : a.isWithin b = true → b.isWithin c = true →
    (a.isWithin c = true ↔ ¬(c.text = "." ∧ b.LooksLikeDrive ∧ a ≠ b))
  cleared_iff : (FileKey.ofPath inner).isWithin (.ofPath outer) = true →
    ((∀ history tag key, (ofHistory history).LosesTo inner tag key →
        (ofHistory history).LosesTo outer tag key) ↔
      ¬((FileKey.ofPath outer).text = "." ∧ (FileKey.ofPath inner).LooksLikeDrive))

/-- To lie within is reflexive and antisymmetric, and it is transitive but where
the outermost key is the single dot and the one in the middle looks like a drive.
So to clear a project around another one takes away all that clearing the inner
one would, whatever is stored, exactly if this is not how the two are nested. -/
theorem losesTo_outer_iff (a b c : FileKey) (inner outer : String) :
    Nesting a b c inner outer where
  refl := a.isWithin_self
  antisymm := FileKey.eq_of_isWithin_isWithin
  trans_iff := FileKey.isWithin_trans_iff
  cleared_iff := by
    refine fun nested => ⟨?_, fun notDrive history tag key lost => ?_⟩
    · rintro always ⟨dot, drive⟩
      have unrooted : (FileKey.ofPath inner).isRooted = false := by
        simpa [FileKey.isWithin_of_dot dot] using nested
      obtain ⟨f, within, ne⟩ := drive.exists_beyond unrooted
      obtain ⟨file, rfl⟩ := f.exists_ofPath
      have held := batchAt?_report_self .empty ⟨"t"⟩ file ⟨none, []⟩
      have lost := always [.report ⟨"t"⟩ file ⟨none, []⟩] ⟨"t"⟩ (.ofPath file)
        (losesTo_iff.2 ⟨⟨_, held⟩, within⟩)
      exact (FileKey.isWithin_trans_iff within nested).1 (losesTo_iff.1 lost).2 ⟨dot, drive, ne⟩
    · rw [losesTo_iff] at lost ⊢
      refine ⟨lost.1, (FileKey.isWithin_trans_iff lost.2 nested).2 ?_⟩
      exact fun h => notDrive ⟨h.1, h.2.1⟩

theorem losesTo_outer_iff_folder :
    (FileKey.ofPath "/p/sub/a.ts").isWithin (.ofPath "/p/sub") = true ∧
      (FileKey.ofPath "/p/sub").isWithin (.ofPath "/p") = true ∧
        (FileKey.ofPath "/p/sub/a.ts").isWithin (.ofPath "/p") = true ∧
          ∀ history tag key, (ofHistory history).LosesTo "/p/sub" tag key →
            (ofHistory history).LosesTo "/p" tag key := by
  have notDot : (FileKey.ofPath "/p").text ≠ "." := by decide +kernel
  have nested : (FileKey.ofPath "/p/sub").isWithin (.ofPath "/p") = true := by decide +kernel
  have inside : (FileKey.ofPath "/p/sub/a.ts").isWithin (.ofPath "/p/sub") = true := by
    decide +kernel
  have keys := losesTo_outer_iff (.ofPath "/p/sub/a.ts") (.ofPath "/p/sub") (.ofPath "/p")
    "/p/sub" "/p"
  refine ⟨inside, nested, (keys.trans_iff inside nested).2 ?_, (keys.cleared_iff nested).2 ?_⟩
  · exact fun h => notDot h.1
  · exact fun h => notDot h.1

/-- A file on a drive lies within the drive, and the drive within the single dot,
but the file does not. Clearing the drive takes it away, and clearing the single
dot leaves it. -/
theorem not_losesTo_dot_of_drive :
    (FileKey.ofPath "C:/x").isWithin (.ofPath "C:") = true ∧
      (FileKey.ofPath "C:").isWithin (.ofPath ".") = true ∧
        (FileKey.ofPath "C:/x").isWithin (.ofPath ".") = false ∧
          (ofHistory [.report ⟨"t"⟩ "C:/x" ⟨none, []⟩]).LosesTo "C:" ⟨"t"⟩ (.ofPath "C:/x") ∧
            ¬(ofHistory [.report ⟨"t"⟩ "C:/x" ⟨none, []⟩]).LosesTo "." ⟨"t"⟩ (.ofPath "C:/x") := by
  have held : (ofHistory [.report ⟨"t"⟩ "C:/x" ⟨none, []⟩]).batchAt? ⟨"t"⟩ (.ofPath "C:/x") =
      some ⟨none, []⟩ := batchAt?_report_self .empty ⟨"t"⟩ "C:/x" ⟨none, []⟩
  have inDrive : (FileKey.ofPath "C:/x").isWithin (.ofPath "C:") = true := by decide +kernel
  have notInDot : (FileKey.ofPath "C:/x").isWithin (.ofPath ".") = false := by decide +kernel
  refine ⟨inDrive, by decide +kernel, notInDot, losesTo_iff.2 ⟨⟨_, held⟩, inDrive⟩, ?_⟩
  rw [losesTo_iff, notInDot]
  exact fun h => Bool.false_ne_true h.2

end Store

end DiagnosticFeed
