/-!
# File keys

A file key is the lexical normal form of a path string.  Every file name that
enters the store, a query or a filter goes through `FileKey.ofPath`, so that
`a/b.ts`, `a\b.ts` and `a/./x/../b.ts` name one file.  The file system is never
consulted.

A path string is first taken apart (`PathParts.scan`), its segments are then
resolved against each other (`PathParts.resolve`), and the parts are written
out again (`PathParts.written`).
-/

namespace DiagnosticFeed

abbrev Segment := List Char

namespace Segment

def here : Segment := ['.']

def up : Segment := ['.', '.']

end Segment

/-- A path string taken apart: an optional upper-cased drive letter, whether a
separator follows it, and the segments between the separators. -/
structure PathParts where
  drive : Option Char
  rooted : Bool
  segments : List Segment
deriving DecidableEq

namespace PathParts

def unify (c : Char) : Char := if c = '\\' then '/' else c

def ofRest (drive : Option Char) (rest : List Char) : PathParts where
  drive := drive
  rooted := rest.head? = some '/'
  segments := rest.splitOn '/'

/-- The parts of text whose separators are all slashes.  A drive is one ASCII
letter and a colon at the very start. -/
def ofUnified : List Char → PathParts
  | letter :: ':' :: rest =>
    if letter.isAlpha then ofRest (some letter.toUpper) rest
    else ofRest none (letter :: ':' :: rest)
  | text => ofRest none text

def scan (path : String) : PathParts := ofUnified (path.toList.map unify)

/-- Walk into one more segment; `stack` holds the segments walked so far, the
innermost first.  Above the root there is nothing to walk up to, and an
unrooted path keeps the steps that leave its start. -/
def enter (rooted : Bool) (stack : List Segment) (segment : Segment) :
    List Segment :=
  if segment = [] ∨ segment = Segment.here then stack
  else if segment ≠ Segment.up then segment :: stack
  else
    match stack with
    | [] => if rooted then [] else [Segment.up]
    | top :: below =>
      if top ≠ Segment.up then below
      else if rooted then stack
      else Segment.up :: stack

def walk (rooted : Bool) (segments : List Segment) : List Segment :=
  segments.foldl (enter rooted) []

def resolve (p : PathParts) : PathParts :=
  { p with segments := (walk p.rooted p.segments).reverse }

def front (p : PathParts) : List Char :=
  (match p.drive with
    | some letter => [letter, ':']
    | none => []) ++ if p.rooted then ['/'] else []

def written (p : PathParts) : List Char :=
  p.front ++ ['/'].intercalate p.segments

end PathParts

/-- The normal form of a path string.  A path that resolves to nothing is
written as a single dot. -/
def normalText (path : String) : String :=
  match (PathParts.scan path).resolve.written with
  | [] => "."
  | text => String.ofList text

structure FileKey where
  text : String
  isNormal : ∃ path : String, normalText path = text

namespace FileKey

@[ext]
theorem ext {a b : FileKey} (h : a.text = b.text) : a = b := by
  cases a; cases b; cases h; rfl

instance : DecidableEq FileKey := fun _ _ => decidable_of_iff _ FileKey.ext_iff.symm

def ofPath (path : String) : FileKey := ⟨normalText path, path, rfl⟩

@[simp]
theorem text_ofPath (path : String) : (ofPath path).text = normalText path := rfl

theorem exists_ofPath (k : FileKey) : ∃ path, ofPath path = k := by
  obtain ⟨text, path, h⟩ := k
  exact ⟨path, ext h⟩

def chars (k : FileKey) : List Char := k.text.toList

/-- Whether text is rooted: it starts with a slash, or with a one-byte
character, a colon and a slash. -/
def rootedText : List Char → Bool
  | '/' :: _ => true
  | c :: ':' :: '/' :: _ => c.toNat < 128
  | _ => false

def isRooted (k : FileKey) : Bool := rootedText k.chars

/-- What follows `head` in `text`, if `text` starts with it. -/
def after? : List Char → List Char → Option (List Char)
  | [], text => some text
  | _ :: _, [] => none
  | c :: head, d :: text => if c = d then after? head text else none

theorem after?_eq_some_iff {head text rest : List Char} :
    after? head text = some rest ↔ text = head ++ rest := by
  induction head generalizing text with
  | nil => simp [after?]
  | cons c head ih =>
    cases text with
    | nil => simp [after?]
    | cons d text =>
      by_cases h : c = d
      · simp [after?, h, ih]
      · simp [after?, h, Ne.symm h]

/-- What is left of `k` below `root`, or nothing if `k` is not below it.  A key
lies below itself with nothing left, and every unrooted key lies below the
single dot with all of its text left. -/
def below? (k root : FileKey) : Option (List Char) :=
  if root.text = "." then
    if k.isRooted then none else some k.chars
  else
    match after? root.chars k.chars with
    | none => none
    | some [] => some []
    | some (c :: rest) =>
      if root.chars.getLast? = some '/' then some (c :: rest)
      else if c = '/' then some rest
      else none

/-- Whether `k` is `root` or lies below it. -/
def isWithin (k root : FileKey) : Bool := (k.below? root).isSome

def components (k : FileKey) : List Segment :=
  (k.chars.splitOn '/').filter (· ≠ [])

end FileKey

end DiagnosticFeed
