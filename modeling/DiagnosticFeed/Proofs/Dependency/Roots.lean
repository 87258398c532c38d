import DiagnosticFeed.Dependency
import DiagnosticFeed.Proofs.FileKey.Below

/-!
# Which of several roots decides

A root shows a file as third-party code if what is left of the file below the
root starts with one of the directories. With nested roots a file lies below
several of them, and the first one in the list decides alone. So the order of
the roots matters exactly if the roots above a file disagree about it
(`covers_perm_iff`), which needs nested roots.
-/

namespace DiagnosticFeed

namespace DependencyArea

/-- A root shows a file as third-party code: the file lies below it, and what is
left of the file leads from a directory to something in it. -/
def Shows (directories : List FileKey) (file root : FileKey) : Prop :=
  ∃ rest, file.below? root = some rest ∧
    ∃ d ∈ directories, ∃ inside, rest = d.chars ++ '/' :: inside

variable {area : DependencyArea} {file root : FileKey}

theorem leadsInto_iff {d : FileKey} {text : List Char} :
    leadsInto d text = true ↔ ∃ inside, text = d.chars ++ '/' :: inside := by
  unfold leadsInto
  cases found : FileKey.after? d.chars text with
  | none =>
      have apart : ∀ inside, text ≠ d.chars ++ '/' :: inside := by
        intro inside eq
        rw [FileKey.after?_eq_some_iff.2 eq] at found
        cases found
      simp [apart]
  | some more =>
      rw [FileKey.after?_eq_some_iff] at found
      rw [found]
      cases more with
      | nil => simp
      | cons c more =>
          by_cases slash : c = '/' <;> simp [slash]

theorem Shows.isWithin {directories : List FileKey} (h : Shows directories file root) :
    file.isWithin root = true := by
  obtain ⟨rest, left, -⟩ := h
  rw [FileKey.isWithin, left]
  rfl

/-- The first root that a file lies below decides whether it is covered. -/
theorem covers_iff_shows {earlier later : List FileKey}
    (roots : area.roots = earlier ++ root :: later)
    (notEarlier : ∀ r ∈ earlier, file.isWithin r = false) (within : file.isWithin root = true) :
    area.covers file = true ↔ Shows area.directories file root := by
  obtain ⟨rest, left⟩ := Option.isSome_iff_exists.1 within
  have noneEarlier : ∀ r ∈ earlier, file.below? r = none := by
    intro r hr
    have notWithin := notEarlier r hr
    rwa [FileKey.isWithin, Option.isSome_eq_false_iff, Option.isNone_iff_eq_none] at notWithin
  have seen : area.relative file = rest := by
    have first : area.roots.findSome? file.below? = some rest :=
      List.findSome?_eq_some_iff.2 ⟨earlier, root, later, roots, left, noneEarlier⟩
    rw [relative, first, Option.getD_some]
  have someRoot : area.roots.isEmpty = false := by
    rw [roots]
    cases earlier <;> rfl
  rw [covers, someRoot, if_neg Bool.false_ne_true, seen, List.any_eq_true]
  simp only [leadsInto_iff, Shows, left, Option.some_inj, exists_eq_left']

/-- A file below one of the roots has a root that decides. -/
theorem exists_deciding (below : ∃ r ∈ area.roots, file.isWithin r = true) :
    ∃ r ∈ area.roots, file.isWithin r = true ∧
      (area.covers file = true ↔ Shows area.directories file r) := by
  have found : (area.roots.find? fun r => file.isWithin r).isSome = true :=
    List.find?_isSome.2 below
  obtain ⟨root, found⟩ := Option.isSome_iff_exists.1 found
  obtain ⟨within, earlier, later, roots, notEarlier⟩ := List.find?_eq_some_iff_append.1 found
  refine ⟨root, by simp [roots], within, covers_iff_shows roots ?_ within⟩
  simpa using notEarlier

/-- The same roots in an order that puts one of them first. -/
theorem exists_perm_deciding (mem : root ∈ area.roots) (within : file.isWithin root = true) :
    ∃ roots, roots.Perm area.roots ∧
      ((⟨roots, area.directories⟩ : DependencyArea).covers file = true ↔
        Shows area.directories file root) := by
  obtain ⟨earlier, later, eq⟩ := List.append_of_mem mem
  refine ⟨root :: (earlier ++ later), ?_, ?_⟩
  · rw [eq]
    exact List.perm_middle.symm
  · have first : root :: (earlier ++ later) = [] ++ root :: (earlier ++ later) := rfl
    exact covers_iff_shows first (by simp) within

/-- For all orders of the roots the file is covered if some root shows it,
exactly if the roots that the file lies below agree about it. -/
theorem forall_perm_covers_iff (below : ∃ r ∈ area.roots, file.isWithin r = true) :
    (∀ roots, roots.Perm area.roots →
        ((⟨roots, area.directories⟩ : DependencyArea).covers file = true ↔
          ∃ r ∈ area.roots, Shows area.directories file r)) ↔
      ∀ r ∈ area.roots, ∀ r' ∈ area.roots, file.isWithin r = true → file.isWithin r' = true →
        (Shows area.directories file r ↔ Shows area.directories file r') := by
  constructor
  · intro every
    have shows : ∀ r ∈ area.roots, file.isWithin r = true →
        (Shows area.directories file r ↔ ∃ r ∈ area.roots, Shows area.directories file r) := by
      intro r mem within
      obtain ⟨roots, perm, decided⟩ := exists_perm_deciding mem within
      exact decided.symm.trans (every roots perm)
    intro r mem r' mem' within within'
    exact (shows r mem within).trans (shows r' mem' within').symm
  · intro agree roots perm
    have below' : ∃ r ∈ roots, file.isWithin r = true := by
      obtain ⟨r, mem, within⟩ := below
      exact ⟨r, perm.mem_iff.2 mem, within⟩
    obtain ⟨root, mem, within, decided⟩ :=
      @exists_deciding ⟨roots, area.directories⟩ file below'
    rw [decided]
    constructor
    · exact fun shown => ⟨root, perm.mem_iff.1 mem, shown⟩
    · rintro ⟨r, memr, shown⟩
      exact (agree r memr root (perm.mem_iff.1 mem) shown.isWithin within).1 shown

/-- Where no root lies below another one, a file lies below one root only. -/
theorem eq_of_not_nested
    (apart : ∀ r ∈ area.roots, ∀ r' ∈ area.roots, r.isWithin r' = true → r = r')
    {r r' : FileKey} (hr : r ∈ area.roots) (hr' : r' ∈ area.roots)
    (within : file.isWithin r = true) (within' : file.isWithin r' = true) : r = r' := by
  rcases FileKey.isWithin_or_isWithin within within' with nested | nested
  · exact apart r hr r' hr' nested
  · exact (apart r' hr' r hr nested).symm

/-- A file below a root is covered only if some root shows it. The converse holds
for every order of the roots exactly if the roots that the file lies below agree
about it, and so it does wherever no root lies below another one. -/
theorem covers_perm_iff (below : ∃ r ∈ area.roots, file.isWithin r = true) :
    (area.covers file = true → ∃ r ∈ area.roots, Shows area.directories file r) ∧
      ((∀ roots, roots.Perm area.roots →
          ((⟨roots, area.directories⟩ : DependencyArea).covers file = true ↔
            ∃ r ∈ area.roots, Shows area.directories file r)) ↔
        ∀ r ∈ area.roots, ∀ r' ∈ area.roots, file.isWithin r = true → file.isWithin r' = true →
          (Shows area.directories file r ↔ Shows area.directories file r')) ∧
        ((∀ r ∈ area.roots, ∀ r' ∈ area.roots, r.isWithin r' = true → r = r') →
          ∀ roots, roots.Perm area.roots →
            ((⟨roots, area.directories⟩ : DependencyArea).covers file = true ↔
              ∃ r ∈ area.roots, Shows area.directories file r)) := by
  refine ⟨?_, forall_perm_covers_iff below, ?_⟩
  · obtain ⟨root, mem, -, decided⟩ := exists_deciding below
    exact fun covered => ⟨root, mem, decided.1 covered⟩
  · intro apart
    refine (forall_perm_covers_iff below).2 fun r hr r' hr' within within' => ?_
    rw [eq_of_not_nested apart hr hr' within within']

def packaged (roots : List String) : DependencyArea := ofPaths roots ["node_modules"]

theorem covers_perm_iff_apart :
    (FileKey.ofPath "C:/lib/node_modules/x/a.d.ts").isWithin (.ofPath "c:\\lib") = true ∧
      ∀ roots, roots.Perm (packaged ["/work/app", "c:\\lib"]).roots →
        ((⟨roots, (packaged []).directories⟩ : DependencyArea).covers
            (.ofPath "C:/lib/node_modules/x/a.d.ts") = true ↔
          ∃ r ∈ (packaged ["/work/app", "c:\\lib"]).roots,
            Shows (packaged []).directories (.ofPath "C:/lib/node_modules/x/a.d.ts") r) := by
  have within : (FileKey.ofPath "C:/lib/node_modules/x/a.d.ts").isWithin (.ofPath "c:\\lib") =
      true := by decide +kernel
  have mem : FileKey.ofPath "c:\\lib" ∈ (packaged ["/work/app", "c:\\lib"]).roots :=
    List.mem_cons_of_mem _ List.mem_cons_self
  have apart : ∀ r ∈ (packaged ["/work/app", "c:\\lib"]).roots,
      ∀ r' ∈ (packaged ["/work/app", "c:\\lib"]).roots, r.isWithin r' = true → r = r' := by
    decide +kernel
  exact ⟨within, (covers_perm_iff ⟨_, mem, within⟩).2.2 apart⟩

/-- A package of an inner project is not covered where the outer project comes
first, although the inner project shows it. -/
theorem not_covers_inner_package :
    (FileKey.ofPath "/p/sub/node_modules/x.ts").isWithin (.ofPath "/p") = true ∧
      ¬((packaged ["/p", "/p/sub"]).covers (.ofPath "/p/sub/node_modules/x.ts") = true ↔
        ∃ r ∈ (packaged ["/p", "/p/sub"]).roots,
          Shows (packaged ["/p", "/p/sub"]).directories (.ofPath "/p/sub/node_modules/x.ts") r) ∧
        (packaged ["/p/sub", "/p"]).covers (.ofPath "/p/sub/node_modules/x.ts") = true := by
  have missed : (packaged ["/p", "/p/sub"]).covers (.ofPath "/p/sub/node_modules/x.ts") = false := by
    decide +kernel
  have left : (FileKey.ofPath "/p/sub/node_modules/x.ts").below? (.ofPath "/p/sub") =
      some "node_modules/x.ts".toList := by decide +kernel
  have leads : "node_modules/x.ts".toList =
      (FileKey.ofPath "node_modules").chars ++ '/' :: "x.ts".toList := by decide +kernel
  refine ⟨by decide +kernel, fun covered => ?_, by decide +kernel⟩
  rw [missed] at covered
  refine Bool.false_ne_true (covered.2 ⟨.ofPath "/p/sub", ?_, _, left, ?_⟩)
  · exact List.mem_cons_of_mem _ List.mem_cons_self
  · exact ⟨.ofPath "node_modules", List.mem_cons_self, _, leads⟩

end DependencyArea

end DiagnosticFeed
