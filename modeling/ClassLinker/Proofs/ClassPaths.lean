import ClassLinker.Proofs.Configuration
import ClassLinker.Proofs.NamespaceMappings
import ClassLinker.Proofs.NormalPaths

set_option autoImplicit false

namespace ClassLinker

namespace WebPath

theorem foldSegments_append_of_isName (kept parts : List (List Char)) {names : List (List Char)}
    (proper : ∀ name ∈ names, IsName name) :
    foldSegments kept (parts ++ names) = foldSegments kept parts ++ names := by
  induction parts generalizing kept with
  | nil => rw [List.nil_append, foldSegments_of_isName proper, foldSegments]
  | cons part parts ih =>
    rw [List.cons_append, foldSegments, foldSegments]
    split
    next => exact ih kept
    next =>
      split
      next => exact ih kept.tail
      next => exact ih (part :: kept)

theorem splitOn_append_trail (path : List Char) {names : List (List Char)} (clean : ∀ name ∈ names, '/' ∉ name) :
    Text.splitOn '/' (path ++ trail names) = Text.splitOn '/' path ++ names := by
  cases names with
  | nil => simp
  | cons name names =>
    have parts := splitOn_trail clean
    -- the trail starts with a slash, so that its first part is empty
    rw [trail_cons, List.cons_append, Text.splitOn, if_pos rfl] at parts
    rw [trail_cons, List.cons_append, Text.splitOn_append, (List.cons.inj parts).2]

theorem segments_append_trail (path : List Char) {names : List (List Char)} (proper : ∀ name ∈ names, IsName name) :
    segments (path ++ trail names) = segments path ++ names := by
  have clean : slashed (path ++ trail names) = slashed path ++ trail names := by
    rw [slashed, List.map_append, ← slashed, ← slashed, slashed_eq_self (backslash_not_mem_trail proper)]
  rw [segments, clean, splitOn_append_trail _ fun name member => (proper name member).slash,
    foldSegments_append_of_isName _ _ proper, segments]

theorem normalise_eq_self_iff_ofSegments {path : String} :
    normalise path [] = path ↔ ofSegments (segments path.toList) = path.toList := by
  rw [normalise_eq_ofSegments, ← String.toList_inj, String.toList_ofList]

theorem ofSegments_append_trail_eq_self_iff {base : List Char} (filled : base ≠ []) (names : List (List Char)) :
    ofSegments (segments base ++ names) = base ++ trail names ↔
      ofSegments (segments base) = base ∧ (base = ['/'] → names = []) := by
  by_cases none : names = []
  next => simp [none]
  next =>
    have joined : ofSegments (segments base ++ names) = trail (segments base) ++ trail names := by
      rw [ofSegments_eq_trail (by simp [none]), trail_append]
    rw [joined, List.append_cancel_right_eq, imp_iff_not none]
    -- only the root has no segments and is spelled with a slash nevertheless
    by_cases root : segments base = []
    next =>
      rw [root]
      refine iff_of_false (Ne.symm filled) ?_
      rintro ⟨normal, other⟩
      exact other normal.symm
    next =>
      have other : base ≠ ['/'] := by
        rintro rfl
        exact root rfl
      simp [ofSegments_eq_trail root, other]

end WebPath

namespace Resolver

def nameParts (rest : List Char) : List (List Char) := (Text.splitOn '.' rest).filter (· ≠ [])

theorem joinWith_cons (part : List Char) (parts : List (List Char)) :
    Text.joinWith '/' (part :: parts) = part ++ WebPath.trail parts := by
  induction parts generalizing part with
  | nil => simp [Text.joinWith]
  | cons next more ih =>
    rw [Text.joinWith, ih, WebPath.trail_cons, List.cons_append]
    simp

theorem classPath_eq (base rest : List Char) : classPath base rest = base ++ WebPath.trail (nameParts rest) :=
  joinWith_cons base (nameParts rest)

theorem mem_of_mem_nameParts {rest part : List Char} (member : part ∈ nameParts rest) {c : Char} (within : c ∈ part) :
    c ∈ rest := by
  rw [← Text.joinWith_splitOn '.' rest]
  exact Text.mem_joinWith (List.mem_filter.mp member).1 within

theorem isName_of_mem_nameParts {rest : List Char} (plain : '/' ∉ rest ∧ '\\' ∉ rest) {part : List Char}
    (member : part ∈ nameParts rest) : WebPath.IsName part := by
  obtain ⟨inside, filled⟩ := List.mem_filter.mp member
  -- a part of a name has no dots, and so is neither of the two names that do
  have undotted := Text.not_mem_of_mem_splitOn inside
  exact {
    filled := by simpa using filled
    here := by
      rintro rfl
      simp at undotted
    above := by
      rintro rfl
      simp at undotted
    slash := fun within => plain.1 (mem_of_mem_nameParts member within)
    backslash := fun within => plain.2 (mem_of_mem_nameParts member within) }

theorem star_not_mem_classPath {base rest : List Char} (starless : '*' ∉ base) (starless' : '*' ∉ rest) :
    '*' ∉ classPath base rest := by
  rw [classPath_eq, WebPath.trail, List.mem_append, List.mem_flatMap]
  rintro (inside | ⟨part, member, inside⟩)
  next => exact starless inside
  next =>
    rcases List.mem_cons.mp inside with same | within
    next => cases same
    next => exact starless' (mem_of_mem_nameParts member within)

section
variable {r : Resolver} {canonical : String} {m : Mapping} {rest : String}
  (found : r.mappingFor? canonical = some (m, rest))
include found

theorem splits_of_mappingFor? : m ∈ r.mappings ∧ Splits canonical m.stem rest := by
  obtain ⟨m', member, fits⟩ := List.exists_of_findSome?_eq_some found
  obtain ⟨cs, cut, same⟩ := Option.map_eq_some_iff.mp fits
  cases same
  exact ⟨member, splits_iff.mpr (by simpa using cut)⟩

theorem resolveCanonical_of_mappingFor? {base : String} (target : m.target = .path base) (w : Workspace) :
    let path := classPath base.toList rest.toList
    r.resolveCanonical w canonical =
      .paths (if path.contains '*' then r.expandStar w path else [String.ofList path]) := by
  simp only [resolveCanonical, found, target]

end

theorem resolve_of_canonicalName {alternates : Table String} {name canonical : String}
    (led : canonicalName alternates name = .ok canonical) (r : Resolver) (w : Workspace) :
    r.resolve w alternates name = .ok (canonical, r.resolveCanonical w canonical) := by
  rw [resolve, led]
  rfl

/-- In every configuration, a class in a namespace whose directory has no star stands for one path. The path leads to
the place below the directory that the name says, and it is spelled normally exactly if the directory is and, if the
directory is the root, the name is that of the namespace itself. -/
theorem class_path_normal_iff {c : Config} (made : c.IsMade) (w : Workspace) {alternates : Table String}
    {name canonical : String} (led : canonicalName alternates name = .ok canonical)
    (plain : '/' ∉ canonical.toList ∧ '\\' ∉ canonical.toList ∧ '*' ∉ canonical.toList) {m : Mapping}
    {rest base : String} (found : (ofConfig c).mappingFor? canonical = some (m, rest)) (target : m.target = .path base)
    (starless : '*' ∉ base.toList) :
    ∃ path, (ofConfig c).resolve w alternates name = .ok (canonical, .paths [path]) ∧
      WebPath.normalise path [] =
        String.ofList (WebPath.ofSegments (WebPath.segments base.toList ++ nameParts rest.toList)) ∧
      (WebPath.normalise path [] = path ↔
        WebPath.normalise base [] = base ∧ (base = "/" → nameParts rest.toList = [])) := by
  obtain ⟨entry, splits⟩ := splits_of_mappingFor? found
  have inside (x : Char) (member : x ∈ rest.toList) : x ∈ canonical.toList := by
    rcases splits with ⟨rfl, rfl⟩ | rfl
    next => cases member
    next => simp [member]
  have proper : ∀ part ∈ nameParts rest.toList, WebPath.IsName part := fun part member =>
    isName_of_mem_nameParts ⟨fun slash => plain.1 (inside _ slash), fun slash => plain.2.1 (inside _ slash)⟩ member
  -- a directory that has been normalised starts with a slash
  have filled : base.toList ≠ [] := by
    rw [arranges_ofConfig c |>.entries, target] at entry
    obtain ⟨given, normal⟩ := made.hasNormalTargets entry
    cases given <;> cases normal
    simp [WebPath.normaliseBase]
  have unstarred : (classPath base.toList rest.toList).contains '*' = false := by
    simpa using star_not_mem_classPath starless fun star => plain.2.2 (inside _ star)
  refine ⟨String.ofList (classPath base.toList rest.toList), ?_, ?_, ?_⟩
  next =>
    rw [resolve_of_canonicalName led, resolveCanonical_of_mappingFor? found target]
    simp only [unstarred, Bool.false_eq_true, if_false]
  next =>
    rw [WebPath.normalise_eq_ofSegments, String.toList_ofList, classPath_eq, WebPath.segments_append_trail _ proper]
  next =>
    have root : base.toList = ['/'] ↔ base = "/" := by
      rw [← String.toList_inj]
      rfl
    rw [WebPath.normalise_eq_self_iff_ofSegments, WebPath.normalise_eq_self_iff_ofSegments, String.toList_ofList,
      classPath_eq, WebPath.segments_append_trail _ proper, WebPath.ofSegments_append_trail_eq_self_iff filled, root]

theorem class_path_of_alternate_name_normal :
    let c := Config.default.withMapping "N" (.path "./src\\lib/")
    let alternates := Table.ofList [("N.Old", "N.view.Main")]
    (ofConfig c).resolve ⟨[]⟩ alternates "N.Old" = .ok ("N.view.Main", .paths ["/src/lib/view/Main"]) ∧
      WebPath.normalise "/src/lib/view/Main" [] = "/src/lib/view/Main" := by
  -- An alternate name leads to a class below a directory that is spelled with a backslash.
  intro c alternates
  have made : c.IsMade := .mapped (.json (show Config.ofJson .null = .ok Config.default from rfl)) _ _
  have led : canonicalName alternates "N.Old" = .ok "N.view.Main" := by decide +kernel
  have found : (ofConfig c).mappingFor? "N.view.Main" = some (⟨"N", .path "/src/lib"⟩, "view.Main") := by decide +kernel
  obtain ⟨path, resolved, place, normal⟩ := class_path_normal_iff made ⟨[]⟩ led (by decide) found rfl (by decide)
  have spelled : path = "/src/lib/view/Main" :=
    (normal.mpr (by decide +kernel)).symm.trans (place.trans (by decide +kernel))
  rw [spelled] at resolved normal
  exact ⟨resolved, normal.mpr (by decide +kernel)⟩

/-- Two slashes stand between the root and a class below it, and dots in a directory stay where they are. -/
theorem class_paths_not_spelled_normally :
    let root := ofConfig (Config.default.withMapping "N" (.path "/"))
    let dotted := ofConfig (Config.default.withMapping "N" (.path "/src/../lib"))
    (root.resolve ⟨[]⟩ ∅ "N.A" = .ok ("N.A", .paths ["//A"]) ∧ WebPath.normalise "//A" [] = "/A") ∧
    (dotted.resolve ⟨[]⟩ ∅ "N.A" = .ok ("N.A", .paths ["/src/../lib/A"]) ∧
      WebPath.normalise "/src/../lib/A" [] = "/lib/A") := by
  decide +kernel

end Resolver

end ClassLinker
