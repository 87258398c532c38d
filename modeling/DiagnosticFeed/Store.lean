import DiagnosticFeed.Diagnostic
import DiagnosticFeed.Distinct
import DiagnosticFeed.FileKey

/-!
# The store

The store holds, for every tag and file, the batch of issues that was reported
last.  A new batch takes the place of the old one as a whole.  Batches go away
when a `Selection` that matches them is cleared; a tag that has no batches left
is forgotten.
-/

namespace DiagnosticFeed

instance : TextKey FileKey := ⟨FileKey.text, FileKey.ext⟩

/-- All that a producer has to say about a file, and the file that made it say
so, if it named one. -/
structure Batch where
  trigger : Option String
  diagnostics : List Diagnostic
deriving DecidableEq

/-- Which batches to clear: those about files of a project, and those that a
file has triggered. -/
structure Selection where
  project : Option String
  trigger : Option String
deriving DecidableEq

namespace Selection

def isEmpty (s : Selection) : Bool := s.project.isNone && s.trigger.isNone

def matchesProject (s : Selection) (file : FileKey) : Bool :=
  s.project.any fun project => file.isWithin (.ofPath project)

/-- Whether a batch was triggered by the file that is asked for, or is about
it. -/
def matchesTrigger (s : Selection) (file : FileKey) (batch : Batch) : Bool :=
  s.trigger.any fun trigger =>
    batch.trigger = some trigger || file = FileKey.ofPath trigger

def selects (s : Selection) (file : FileKey) (batch : Batch) : Bool :=
  s.matchesProject file || s.matchesTrigger file batch

end Selection

abbrev FileMap := SortedMap FileKey Batch

structure Store where
  byTag : SortedMap Tag FileMap
deriving DecidableEq

namespace Store

def empty : Store := ⟨.empty⟩

/-! ## Changes -/

def report (s : Store) (tag : Tag) (file : String) (batch : Batch) : Store :=
  ⟨s.byTag.insert tag (((s.byTag.get? tag).getD .empty).insert (.ofPath file) batch)⟩

def keep (selection : Selection) (files : FileMap) : FileMap :=
  files.filter fun file batch => !selection.selects file batch

def fileCount (s : Store) : Nat := s.byTag.total SortedMap.size

def clear (s : Store) (selection : Selection) : Store :=
  if selection.isEmpty then s
  else
    ⟨s.byTag.filterMap fun _ files =>
      let kept := keep selection files
      if kept.isEmpty then none else some kept⟩

def selectedCount (s : Store) (selection : Selection) : Nat :=
  if selection.isEmpty then 0
  else s.byTag.total fun files => files.size - (keep selection files).size

/-! ## Contents -/

def tags (s : Store) : List Tag := s.byTag.keys

def batch? (s : Store) (tag : Tag) (file : String) : Option Batch :=
  (s.byTag.get? tag).bind fun files => files.get? (.ofPath file)

def batchesOf (s : Store) (file : FileKey) : List Batch :=
  s.byTag.values.filterMap fun files => files.get? file

def issuesOf (files : FileMap) : List (FileKey × Diagnostic) :=
  files.entries.flatMap fun (file, batch) => batch.diagnostics.map fun d => (file, d)

def issues (s : Store) : List (FileKey × Diagnostic) :=
  s.byTag.values.flatMap issuesOf

def issueCount (s : Store) : Nat :=
  s.byTag.total fun files => files.total fun batch => batch.diagnostics.length

def isEmpty (s : Store) : Bool := s.byTag.isEmpty

@[simp]
theorem batch?_empty (tag : Tag) (file : String) : empty.batch? tag file = none := rfl

theorem batch?_report_self (s : Store) (tag : Tag) {file file' : String} (batch : Batch)
    (h : FileKey.ofPath file' = FileKey.ofPath file) :
    (s.report tag file batch).batch? tag file' = some batch := by
  simp [batch?, report, h]

theorem batch?_report_of_tag_ne (s : Store) {tag tag' : Tag} (file file' : String)
    (batch : Batch) (h : tag' ≠ tag) :
    (s.report tag file batch).batch? tag' file' = s.batch? tag' file' := by
  simp [batch?, report, SortedMap.get?_insert_of_ne _ h]

theorem batch?_report_of_file_ne (s : Store) (tag : Tag) {file file' : String}
    (batch : Batch) (h : FileKey.ofPath file' ≠ FileKey.ofPath file) :
    (s.report tag file batch).batch? tag file' = s.batch? tag file' := by
  cases found : s.byTag.get? tag <;>
    simp [batch?, report, found, SortedMap.get?_insert_of_ne _ h]

end Store

end DiagnosticFeed
