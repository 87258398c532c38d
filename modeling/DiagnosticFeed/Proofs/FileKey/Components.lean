import DiagnosticFeed.Proofs.FileKey.Nesting

/-!
# Keys by their components

The text of a key is its components with slashes between them, and a slash in
front if the key starts with one. The one other kind of key is a drive with the
slash of its root and nothing behind it (`chars_cases`). So a key lies below
another one if its components go on from those of the other one
(`below?_eq_some_iff_components`), although this is decided by comparing
characters: a name is never cut in two.
-/

namespace DiagnosticFeed

namespace Segment

def pieces (text : List Char) : List Segment := (text.splitOn '/').filter (· ≠ [])

theorem isPiece_of_mem_pieces {text : List Char} {s : Segment} (h : s ∈ pieces text) :
    s.IsPiece := by
  obtain ⟨mem, ne_nil⟩ := List.mem_filter.1 h
  exact ⟨by simpa using ne_nil, fun slash => (mem_of_mem_splitOn mem slash).2 rfl⟩

theorem pieces_append_slash (a b : List Char) : pieces (a ++ '/' :: b) = pieces a ++ pieces b := by
  rw [pieces, List.splitOn_append_cons_self, List.filter_append]
  rfl

theorem pieces_intercalate {segments : List Segment} (h : ∀ s ∈ segments, s.IsPiece) :
    pieces (['/'].intercalate segments) = segments := by
  by_cases empty : segments = []
  · rw [empty]
    rfl
  · have read := List.splitOn_intercalate '/' (fun s hs => (h s hs).noSlash) empty
    rw [pieces, read, List.filter_eq_self]
    intro s hs
    simpa using (h s hs).ne_nil

theorem intercalate_append {a b : List Segment} (ha : a ≠ []) (hb : b ≠ []) :
    ['/'].intercalate (a ++ b) = ['/'].intercalate a ++ '/' :: ['/'].intercalate b := by
  obtain ⟨s, a, rfl⟩ := List.exists_cons_of_ne_nil ha
  obtain ⟨t, b, rfl⟩ := List.exists_cons_of_ne_nil hb
  simp [intercalate_cons]

end Segment

namespace PathParts

variable {p : PathParts}

/-- Normal parts are written as pieces, with a slash in front if they are rooted
without a drive, unless there is nothing but a drive and its root. -/
theorem IsNormal.written_cases (h : p.IsNormal) :
    (∃ (slash : Bool) (segments : List Segment), (∀ s ∈ segments, s.IsPiece) ∧
        p.written = (if slash then ['/'] else []) ++ ['/'].intercalate segments) ∨
      ∃ letter, letter ≠ '/' ∧ p.written = [letter, ':', '/'] := by
  obtain ⟨drive, rooted, segments⟩ := p
  have pieces : ∀ s ∈ segments, s.IsPiece := Reduced.isPiece h.reduced
  cases drive with
  | none => exact Or.inl ⟨rooted, segments, pieces, written_of_none rfl⟩
  | some letter =>
      have notSlash : letter ≠ '/' := by
        rintro rfl
        cases h.drive_isAlpha '/' rfl
      have driveIsPiece : Segment.IsPiece [letter, ':'] := ⟨by simp, by simp [notSlash.symm]⟩
      rw [written_of_some rfl]
      match rooted, segments with
      | true, [] => exact Or.inr ⟨letter, notSlash, rfl⟩
      | true, s :: rest =>
          refine Or.inl ⟨false, [letter, ':'] :: s :: rest, ?_, ?_⟩
          · exact List.forall_mem_cons.2 ⟨driveIsPiece, pieces⟩
          · simp [tail, List.intercalate_cons_cons]
      | false, [] =>
          refine Or.inl ⟨false, [[letter, ':']], ?_, rfl⟩
          exact List.forall_mem_singleton.2 driveIsPiece
      | false, s :: rest =>
          obtain ⟨sPiece, restPieces⟩ := List.forall_mem_cons.1 pieces
          refine Or.inl ⟨false, (letter :: ':' :: s) :: rest, ?_, ?_⟩
          · have firstPiece : Segment.IsPiece (letter :: ':' :: s) :=
              ⟨by simp, by simp [notSlash.symm, sPiece.noSlash]⟩
            exact List.forall_mem_cons.2 ⟨firstPiece, restPieces⟩
          · simp [tail, Segment.intercalate_cons]

end PathParts

namespace FileKey

open PathParts Segment

variable {k root : FileKey}

theorem isPiece_of_mem_components {s : Segment} (h : s ∈ k.components) : s.IsPiece :=
  isPiece_of_mem_pieces h

def lead (k : FileKey) : List Char := if k.chars.head? = some '/' then ['/'] else []

theorem components_of_chars_eq (slash : Bool) {segments : List Segment}
    (isPiece : ∀ s ∈ segments, s.IsPiece)
    (eq : k.chars = (if slash then ['/'] else []) ++ ['/'].intercalate segments) :
    k.components = segments := by
  rw [← pieces_intercalate isPiece]
  cases slash with
  | true => exact (congrArg pieces eq).trans (pieces_append_slash [] _)
  | false => exact congrArg pieces eq

theorem chars_eq_join (slash : Bool) {segments : List Segment}
    (isPiece : ∀ s ∈ segments, s.IsPiece)
    (eq : k.chars = (if slash then ['/'] else []) ++ ['/'].intercalate segments) :
    k.chars = k.lead ++ ['/'].intercalate k.components := by
  have lead : k.lead = if slash then ['/'] else [] := by
    rw [FileKey.lead, eq]
    cases slash with
    | true => rfl
    | false => exact if_neg (head?_intercalate_pieces_ne isPiece)
  rw [components_of_chars_eq slash isPiece eq, lead, eq]

/-- A key is its components with slashes between them, or a bare drive root. -/
theorem chars_cases (k : FileKey) :
    k.chars = k.lead ++ ['/'].intercalate k.components ∨
      ∃ letter, letter ≠ '/' ∧ k.chars = [letter, ':', '/'] := by
  by_cases dot : k.text = "."
  · have isPiece : ∀ s ∈ [['.']], Segment.IsPiece s :=
      List.forall_mem_singleton.2 ⟨by simp, by simp⟩
    have eq : k.chars = ['.'] := by
      rw [chars, dot]
      rfl
    exact Or.inl (chars_eq_join false isPiece eq)
  · obtain ⟨p, normal, written⟩ := exists_written dot
    rw [written]
    rcases normal.written_cases with ⟨slash, segments, isPiece, eq⟩ | bare
    · rw [← written]
      exact Or.inl (chars_eq_join slash isPiece (written.trans eq))
    · exact Or.inr bare

theorem components_of_bare {letter : Char} (notSlash : letter ≠ '/')
    (eq : k.chars = [letter, ':', '/']) : k.components = [[letter, ':']] := by
  have isPiece : Segment.IsPiece [letter, ':'] := ⟨by simp, by simp [notSlash.symm]⟩
  calc k.components = pieces ([letter, ':'] ++ '/' :: []) := congrArg pieces eq
    _ = pieces [letter, ':'] := (pieces_append_slash _ []).trans (List.append_nil _)
    _ = [[letter, ':']] := pieces_intercalate (List.forall_mem_singleton.2 isPiece)

theorem lead_of_cons {c : Char} {rest : List Char} (notSlash : c ≠ '/') (eq : k.chars = c :: rest) :
    k.lead = [] := by
  rw [lead, eq]
  exact if_neg (by simp [notSlash])

/-- A key with components ends with a slash only if it is a drive root. -/
theorem getLast?_chars_ne (joined : k.chars = k.lead ++ ['/'].intercalate k.components)
    (some_component : k.components ≠ []) : k.chars.getLast? ≠ some '/' := by
  have some_text : ['/'].intercalate k.components ≠ [] := by
    obtain ⟨s, rest, eq⟩ := List.exists_cons_of_ne_nil some_component
    have isPiece : s.IsPiece := isPiece_of_mem_components (k := k) (by simp [eq])
    simp [eq, intercalate_cons, isPiece.ne_nil]
  rw [joined, List.getLast?_append_of_ne_nil _ some_text]
  exact getLast?_intercalate_pieces_ne fun _ => isPiece_of_mem_components

/-- A key without components is a single slash. -/
theorem lead_of_components_eq_nil (joined : k.chars = k.lead ++ ['/'].intercalate k.components)
    (bare : k.components = []) : k.lead = ['/'] := by
  rw [bare, List.intercalate_nil, List.append_nil] at joined
  by_cases slash : k.chars.head? = some '/'
  · exact if_pos slash
  · have nothing : k.lead = [] := if_neg slash
    exact absurd (joined.trans nothing) k.chars_ne_nil

/-! ## What lies below a key -/

/-- The components of a key below a root are those of the root and what is left. -/
theorem components_of_below? {rest : List Char} (dot : root.text ≠ ".")
    (left : k.below? root = some rest) : k.components = root.components ++ pieces rest := by
  have ofText : ∀ k : FileKey, k.components = pieces k.chars := fun _ => rfl
  rw [ofText, ofText]
  rcases cut_of_below? dot left with ⟨same, rfl⟩ | ⟨front, eq, rootEq | rootEq⟩
  · rw [same]
    exact (List.append_nil _).symm
  · rw [eq, rootEq, pieces_append_slash]
  · rw [eq, rootEq, pieces_append_slash, pieces_append_slash]
    exact congrArg (· ++ pieces rest) (List.append_nil _).symm

/-- A drive without its root has the same components as the drive root, and does
not lie below it. -/
def IsDriveOf (k root : FileKey) : Prop :=
  ∃ letter, root.chars = [letter, ':', '/'] ∧ k.chars = [letter, ':']

theorem below?_of_slash (rootEq : root.chars = ['/']) (lead : k.lead = ['/']) :
    k.below? root = some (['/'].intercalate k.components) := by
  have dot : root.text ≠ "." := by
    intro dot
    rw [chars, dot] at rootEq
    cases rootEq
  rw [below?_eq_some_iff dot]
  refine Or.inr (Or.inl ⟨by rw [rootEq]; rfl, ?_⟩)
  rcases k.chars_cases with kEq | ⟨letter, notSlash, kEq⟩
  · rw [kEq, lead, rootEq]
  · rw [lead_of_cons notSlash kEq] at lead
    cases lead

theorem below?_of_names {more : List Segment} (dot : root.text ≠ ".")
    (rootEq : root.chars = root.lead ++ ['/'].intercalate root.components)
    (some_component : root.components ≠ []) (lead : k.lead = root.lead)
    (components : k.components = root.components ++ more) :
    k.below? root = some (['/'].intercalate more) := by
  have last := getLast?_chars_ne rootEq some_component
  rw [below?_eq_some_iff dot]
  rcases k.chars_cases with kEq | ⟨letter, notSlash, kEq⟩
  · by_cases empty : more = []
    · refine Or.inl ⟨?_, by rw [empty]; rfl⟩
      rw [kEq, rootEq, lead, components, empty, List.append_nil]
    · refine Or.inr (Or.inr ⟨last, ?_⟩)
      rw [kEq, rootEq, lead, components, intercalate_append some_component empty,
        List.append_assoc]
  · -- the key is a drive root, and the root its drive
    rw [components_of_bare notSlash kEq, eq_comm, List.append_eq_singleton_iff,
      or_iff_right fun nothing => some_component nothing.1] at components
    obtain ⟨drive, rfl⟩ := components
    refine Or.inr (Or.inr ⟨last, ?_⟩)
    rw [kEq, rootEq, ← lead, lead_of_cons notSlash kEq, drive]
    rfl

theorem below?_of_drive {letter : Char} {more : List Segment} (notSlash : letter ≠ '/')
    (rootEq : root.chars = [letter, ':', '/']) (lead : k.lead = [])
    (components : k.components = [letter, ':'] :: more) (notDrive : ¬k.IsDriveOf root) :
    k.below? root = some (['/'].intercalate more) := by
  have dot : root.text ≠ "." := by
    intro dot
    rw [chars, dot] at rootEq
    cases rootEq
  rw [below?_eq_some_iff dot]
  rcases k.chars_cases with kEq | ⟨letter', notSlash', kEq⟩
  · by_cases empty : more = []
    · rw [lead, components, empty] at kEq
      exact absurd ⟨letter, rootEq, kEq⟩ notDrive
    · refine Or.inr (Or.inl ⟨by rw [rootEq]; rfl, ?_⟩)
      rw [kEq, lead, components, List.intercalate_cons_of_ne_nil empty, rootEq]
      rfl
  · rw [components_of_bare notSlash' kEq, List.cons.injEq] at components
    obtain ⟨same, rfl⟩ := components
    refine Or.inl ⟨?_, rfl⟩
    rw [kEq, rootEq, (List.cons.inj same).1]

/-- What goes on from the components of a root is left below it. -/
theorem below?_of_components_eq {more : List Segment} (dot : root.text ≠ ".")
    (lead : k.lead = root.lead) (components : k.components = root.components ++ more)
    (notDrive : ¬k.IsDriveOf root) : k.below? root = some (['/'].intercalate more) := by
  rcases root.chars_cases with rootEq | ⟨letter, notSlash, rootEq⟩
  · by_cases bare : root.components = []
    · have slash := lead_of_components_eq_nil rootEq bare
      rw [slash, bare] at rootEq
      rw [bare, List.nil_append] at components
      rw [← components]
      exact below?_of_slash rootEq (lead.trans slash)
    · exact below?_of_names dot rootEq bare lead components
  · rw [components_of_bare notSlash rootEq] at components
    have noLead := lead.trans (lead_of_cons notSlash rootEq)
    exact below?_of_drive notSlash rootEq noLead components notDrive

theorem head?_chars_of_isWithin (dot : root.text ≠ ".") (within : k.isWithin root = true) :
    k.chars.head? = root.chars.head? := by
  obtain ⟨more, eq⟩ := isPrefix_of_isWithin dot within
  obtain ⟨c, rest, rootEq⟩ := List.exists_cons_of_ne_nil root.chars_ne_nil
  rw [← eq, rootEq]
  rfl

theorem not_isDriveOf_of_isWithin (dot : root.text ≠ ".") (within : k.isWithin root = true) :
    ¬k.IsDriveOf root := by
  rintro ⟨letter, rootEq, kEq⟩
  have shorter := (isPrefix_of_isWithin dot within).length_le
  rw [rootEq, kEq] at shorter
  simp at shorter

/-- Where a key goes on in the middle of a name, it does not lie below the root. -/
theorem isWithin_eq_false_of_goes_on {c : Char} {more : List Char} (dot : root.text ≠ ".")
    (last : root.chars.getLast? ≠ some '/') (eq : k.chars = root.chars ++ c :: more)
    (name : c ≠ '/') : k.isWithin root = false := by
  rw [Bool.eq_false_iff, Ne, isWithin_iff dot]
  rintro ⟨more', eq', atSeparator⟩
  obtain rfl : c :: more = more' := List.append_cancel_left (eq.symm.trans eq')
  simp [last, name] at atSeparator

theorem getLast?_chars_ne_of_slash {c : Char} {more : List Char} (eq : k.chars = '/' :: c :: more) :
    k.chars.getLast? ≠ some '/' := by
  rcases k.chars_cases with joined | ⟨letter, notSlash, bare⟩
  · refine getLast?_chars_ne joined fun nothing => ?_
    rw [lead_of_components_eq_nil joined nothing, nothing, eq] at joined
    simp at joined
  · exact absurd (List.cons.inj (bare.symm.trans eq)).1 notSlash

/-- Below a root other than the single dot lies what has the same start, at a
slash or not, and goes on from its components, but for a drive against its own
root. What is left is the other components. In particular a name of the root is
never the beginning of a longer one. -/
theorem below?_eq_some_iff_components (dot : root.text ≠ ".") (rest : List Char) :
    (k.below? root = some rest ↔
      (k.chars.head? = some '/' ↔ root.chars.head? = some '/') ∧
        root.components <+: k.components ∧ ¬k.IsDriveOf root ∧
          rest = ['/'].intercalate (k.components.drop root.components.length)) ∧
      ∀ p : String, p ≠ "" → root.text = "/" ++ p → k.text = "/" ++ p ++ "2/a.ts" →
        k.isWithin root = false := by
  have below : ∀ {more}, (k.chars.head? = some '/' ↔ root.chars.head? = some '/') →
      k.components = root.components ++ more → ¬k.IsDriveOf root →
        k.below? root = some (['/'].intercalate more) := by
    intro more start goesOn notDrive
    refine below?_of_components_eq dot ?_ goesOn notDrive
    simp [lead, start]
  refine ⟨⟨fun left => ?_, ?_⟩, ?_⟩
  · have within : k.isWithin root = true := Option.isSome_iff_exists.2 ⟨rest, left⟩
    have start := head?_chars_of_isWithin dot within
    have goesOn := components_of_below? dot left
    have notDrive := not_isDriveOf_of_isWithin dot within
    have again := below (by rw [start]) goesOn notDrive
    refine ⟨by rw [start], ⟨_, goesOn.symm⟩, notDrive, ?_⟩
    rw [goesOn, List.drop_left]
    exact Option.some_inj.1 (left.symm.trans again)
  · rintro ⟨start, ⟨more, goesOn⟩, notDrive, rfl⟩
    rw [← goesOn, List.drop_left]
    exact below start goesOn.symm notDrive
  · intro p some_name rootEq kEq
    have some_char : p.toList ≠ [] := fun nil => some_name (String.toList_eq_nil_iff.1 nil)
    obtain ⟨c, name, pEq⟩ := List.exists_cons_of_ne_nil some_char
    have rootChars : root.chars = '/' :: c :: name := by
      rw [chars, rootEq, String.toList_append, pEq]
      rfl
    have kChars : k.chars = root.chars ++ '2' :: "/a.ts".toList := by
      rw [chars, chars, kEq, rootEq, String.toList_append]
      rfl
    have last := getLast?_chars_ne_of_slash rootChars
    exact isWithin_eq_false_of_goes_on dot last kChars (by decide)

theorem below?_eq_some_iff_components_folder :
    (ofPath "/p").text ≠ "." ∧
      (ofPath "/p\\src/./a.ts").below? (ofPath "/p") = some "src/a.ts".toList ∧
        (ofPath "/p").text = "/" ++ "p" ∧ (ofPath "/p2/a.ts").text = "/" ++ "p" ++ "2/a.ts" ∧
          (ofPath "/p2/a.ts").isWithin (ofPath "/p") = false := by
  have dot : (ofPath "/p").text ≠ "." := by decide +kernel
  have notDrive : ¬(ofPath "/p\\src/./a.ts").IsDriveOf (ofPath "/p") := by
    rintro ⟨letter, eq, -⟩
    have two : (ofPath "/p").chars.length = 2 := by decide +kernel
    rw [eq] at two
    cases two
  have rootText : (ofPath "/p").text = "/" ++ "p" := by decide +kernel
  have text : (ofPath "/p2/a.ts").text = "/" ++ "p" ++ "2/a.ts" := by decide +kernel
  have starts : ((ofPath "/p\\src/./a.ts").chars.head? = some '/' ↔
      (ofPath "/p").chars.head? = some '/') ∧
        (ofPath "/p").components <+: (ofPath "/p\\src/./a.ts").components := by
    decide +kernel
  obtain ⟨below, -⟩ := below?_eq_some_iff_components dot "src/a.ts".toList
  obtain ⟨-, apart⟩ := below?_eq_some_iff_components dot []
  refine ⟨dot, below.2 ⟨starts.1, starts.2, notDrive, ?_⟩, rootText, text, ?_⟩
  · decide +kernel
  · exact apart "p" (by decide) rootText text

end FileKey

end DiagnosticFeed
