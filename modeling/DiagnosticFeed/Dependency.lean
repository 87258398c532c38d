import DiagnosticFeed.FileKey

/-!
# Third-party code

Some directories of a project hold code of others.  A `DependencyArea` says
where the projects are and which directories of theirs these are.
-/

namespace DiagnosticFeed

/-- Whether a list of segments occurs in another without a gap. -/
def Segment.hasRun (run : List Segment) : List Segment → Bool
  | [] => run.isEmpty
  | s :: rest => run.isPrefixOf (s :: rest) || hasRun run rest

structure DependencyArea where
  roots : List FileKey
  directories : List FileKey

namespace DependencyArea

def ofPaths (roots directories : List String) : DependencyArea :=
  ⟨roots.map FileKey.ofPath, directories.map FileKey.ofPath⟩

def leadsInto (directory : FileKey) (text : List Char) : Bool :=
  match FileKey.after? directory.chars text with
  | some ('/' :: _) => true
  | _ => false

/-- The text of a file as seen from the first root that it is below, or all of
its text if there is no such root. -/
def relative (area : DependencyArea) (file : FileKey) : List Char :=
  (area.roots.findSome? file.below?).getD file.chars

def occursIn (area : DependencyArea) (file : FileKey) : Bool :=
  area.directories.any fun d =>
    !d.components.isEmpty && Segment.hasRun d.components file.components.dropLast

/-- Whether a file is third-party code.  Without any roots a directory may be
anywhere on the way to the file. -/
def covers (area : DependencyArea) (file : FileKey) : Bool :=
  if area.roots.isEmpty then area.occursIn file
  else area.directories.any fun d => leadsInto d (area.relative file)

end DependencyArea

end DiagnosticFeed
