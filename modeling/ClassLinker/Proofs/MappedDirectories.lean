import ClassLinker.Proofs.ClassPaths
import ClassLinker.Proofs.Operations
import ClassLinker.Proofs.Scope

set_option autoImplicit false

namespace ClassLinker

open WebPath

namespace Workspace

def fromRoot (pattern : List Char) : List Char := if pattern.head? = some '/' then pattern else '/' :: pattern

theorem fromRoot_eq_cons (pattern : List Char) : ∃ rest, fromRoot pattern = '/' :: rest := by
  unfold fromRoot
  split
  next slash => exact List.head?_eq_some_iff.mp slash
  next => exact ⟨pattern, rfl⟩

section
variable {w : Workspace} {pattern file : String} (member : file ∈ w.expand pattern)
include member

theorem below_of_mem_expand {front rest : List Char} (spelled : fromRoot pattern.toList = front ++ '/' :: rest)
    (literal : ∀ c ∈ front, c ∉ Glob.opening) : ∃ more, file.toList = front ++ '/' :: more := by
  unfold expand at member
  rw [fromRoot] at spelled
  simp only [spelled] at member
  split at member
  next => cases member
  next glob parsed => exact Glob.below_of_accepts literal parsed (List.mem_filter.mp member).2

theorem slash_of_mem_expand : ∃ more, file.toList = '/' :: more := by
  obtain ⟨rest, spelled⟩ := fromRoot_eq_cons pattern.toList
  exact below_of_mem_expand member (spelled.trans (List.nil_append _).symm) (by simp)

end

end Workspace

namespace Resolver

theorem starPattern_append {front : List Char} (starless : '*' ∉ front) (ext : String) (cs : List Char) :
    starPattern ext (front ++ cs) = front ++ starPattern ext cs := by
  induction front with
  | nil => rfl
  | cons c front ih =>
    rw [List.mem_cons, not_or] at starless
    rw [List.cons_append, starPattern, if_neg (Ne.symm starless.1), ih starless.2, List.cons_append]

def beforeStar (base : List Char) : List Char := base.takeWhile (· ≠ '*')

/-- What stands before the first star of a base, or all of it, is the path of a directory: it starts with a slash, has
no characters that mean something in a pattern, and a star starts a name of its own. -/
structure NamesDirectory (base : List Char) : Prop where
  rooted : beforeStar base = [] ∨ (beforeStar base).head? = some '/'
  literal : ∀ c ∈ beforeStar base, c ∉ Glob.opening
  whole : '*' ∈ base → beforeStar base = [] ∨ (beforeStar base).getLast? = some '/'

theorem beforeStar_eq_self {base : List Char} (starless : '*' ∉ base) : beforeStar base = base := by
  rw [beforeStar, List.takeWhile_eq_self_iff]
  intro c member
  have other : c ≠ '*' := fun same => starless (same ▸ member)
  simpa using other

theorem star_not_mem_beforeStar (base : List Char) : '*' ∉ beforeStar base := by
  intro member
  simpa using List.mem_takeWhile_imp member

theorem eq_beforeStar_append {base : List Char} (star : '*' ∈ base) :
    ∃ more, base = beforeStar base ++ '*' :: more := by
  obtain ⟨front, more, rfl, starless⟩ := List.eq_append_cons_of_mem star
  have skipped : ∀ c ∈ front, decide (c ≠ '*') = true := by
    intro c member
    have other : c ≠ '*' := fun same => starless (same ▸ member)
    simpa using other
  refine ⟨more, ?_⟩
  rw [beforeStar, List.takeWhile_append_of_pos skipped, List.takeWhile_cons_of_neg (by simp), List.append_nil]

theorem dropEnd_append_slash {cs : List Char} (ends : cs.getLast? = some '/') :
    ∃ more, cs = Text.dropEnd (· = '/') cs ++ '/' :: more := by
  obtain ⟨front, rfl⟩ := List.getLast?_eq_some_iff.mp ends
  obtain ⟨slashes, only, split⟩ := eq_dropEnd_append front
  rw [dropEnd_append_of_slashes front (by simp)]
  -- a slash at the end of slashes is one at their start
  cases slashes with
  | nil =>
    rw [List.append_nil] at split
    exact ⟨[], by rw [← split]⟩
  | cons c slashes =>
    obtain rfl := only c List.mem_cons_self
    exact ⟨slashes ++ ['/'], by rw [← List.cons_append, ← List.append_assoc, ← split]⟩

theorem baseDirectory_append (base : List Char) : ∃ slashes, beforeStar base = baseDirectory base ++ slashes := by
  unfold baseDirectory
  split
  next =>
    obtain ⟨slashes, _, split⟩ := eq_dropEnd_append (beforeStar base)
    exact ⟨slashes, split⟩
  next starless => exact ⟨[], by rw [List.append_nil, beforeStar_eq_self (by simpa using starless)]⟩

theorem classPath_eq_baseDirectory_append {base rest : List Char} (directory : NamesDirectory base)
    (star : '*' ∈ classPath base rest) :
    baseDirectory base = [] ∨ ∃ tail, classPath base rest = baseDirectory base ++ '/' :: tail := by
  rw [classPath_eq] at star ⊢
  -- a star in the base cuts it, and one in the name is below all of it
  by_cases inBase : '*' ∈ base
  next =>
    have cut : baseDirectory base = Text.dropEnd (· = '/') (beforeStar base) := by
      rw [baseDirectory, if_pos (by simpa using inBase), beforeStar]
    rcases directory.whole inBase with none | ends
    next =>
      rw [cut, none]
      exact .inl rfl
    next =>
      obtain ⟨after, split⟩ := eq_beforeStar_append inBase
      obtain ⟨more, slashed⟩ := dropEnd_append_slash ends
      right
      rw [cut]
      refine ⟨more ++ '*' :: after ++ trail (nameParts rest), ?_⟩
      conv_lhs => rw [split, slashed]
      simp
  next =>
    have whole : baseDirectory base = base := by rw [baseDirectory, if_neg (by simpa using inBase)]
    rw [whole]
    cases parts : nameParts rest with
    | nil =>
      rw [parts, trail_nil, List.append_nil] at star
      exact absurd star inBase
    | cons part more => exact .inr ⟨part ++ trail more, by simp⟩

theorem below_of_mem_expand_starPattern {w : Workspace} {base rest : List Char} (directory : NamesDirectory base)
    (star : '*' ∈ classPath base rest) {ext file : String}
    (member : file ∈ w.expand (String.ofList (starPattern ext (classPath base rest)))) :
    ∃ more, file.toList = baseDirectory base ++ '/' :: more := by
  obtain ⟨slashes, before⟩ := baseDirectory_append base
  have kept (c : Char) (inside : c ∈ baseDirectory base) : c ∈ beforeStar base := by simp [before, inside]
  rcases classPath_eq_baseDirectory_append directory star with none | ⟨tail, split⟩
  next =>
    rw [none]
    exact Workspace.slash_of_mem_expand member
  next =>
    have pattern : starPattern ext (classPath base rest) = baseDirectory base ++ '/' :: starPattern ext tail := by
      rw [split, starPattern_append fun inside => star_not_mem_beforeStar base (kept _ inside), starPattern,
        if_neg (by decide)]
    have slash : (baseDirectory base ++ '/' :: starPattern ext tail).head? = some '/' := by
      cases first : baseDirectory base with
      | nil => rfl
      | cons c more =>
        rw [first, List.cons_append] at before
        simpa [before] using directory.rooted
    have spelled : Workspace.fromRoot (String.ofList (starPattern ext (classPath base rest))).toList =
        baseDirectory base ++ '/' :: starPattern ext tail := by
      rw [String.toList_ofList, pattern, Workspace.fromRoot, if_pos slash]
    exact Workspace.below_of_mem_expand member spelled fun c inside => directory.literal c (kept c inside)

theorem below_of_mem_expandStar {r : Resolver} {w : Workspace} {base rest : List Char} (directory : NamesDirectory base)
    (clean : ∀ ext ∈ r.scripts, '/' ∉ ext.toList) (star : '*' ∈ classPath base rest) {path : String}
    (member : path ∈ r.expandStar w (classPath base rest)) :
    ∃ more, path.toList = baseDirectory base ++ '/' :: more := by
  rw [expandStar, mem_sortedUnique, List.mem_flatMap] at member
  obtain ⟨ext, _, member⟩ := member
  obtain ⟨file, found, rfl⟩ := List.mem_map.mp member
  rw [withoutScriptExtension, String.toList_ofList, dropExtension_below_iff clean]
  exact below_of_mem_expand_starPattern directory star found

theorem below_of_starless {base rest : List Char} (starless : '*' ∉ classPath base rest) :
    classPath base rest = baseDirectory base ∨ ∃ more, classPath base rest = baseDirectory base ++ '/' :: more := by
  rw [classPath_eq] at starless ⊢
  have whole : baseDirectory base = base := by
    rw [baseDirectory, if_neg]
    simpa using fun inside => starless (List.mem_append_left _ inside)
  rw [whole]
  cases nameParts rest with
  | nil => exact .inl (by simp)
  | cons part more => exact .inr ⟨part ++ trail more, by simp⟩

theorem exists_mapping_of_resolve {r : Resolver} {w : Workspace} {alternates : Table String} {name canonical : String}
    {found : List String} (resolved : r.resolve w alternates name = .ok (canonical, .paths found)) :
    ∃ m rest base, r.mappingFor? canonical = some (m, rest) ∧ m.target = .path base ∧
      found = if (classPath base.toList rest.toList).contains '*' then r.expandStar w (classPath base.toList rest.toList)
        else [String.ofList (classPath base.toList rest.toList)] := by
  obtain ⟨canonical', led, same⟩ := bind_eq_ok.mp resolved
  obtain ⟨rfl, own⟩ := Prod.mk.inj (Except.ok.inj same)
  cases mapping : r.mappingFor? canonical' with
  | none =>
    rw [resolveCanonical, mapping] at own
    cases own
  | some entry =>
    obtain ⟨m, rest⟩ := entry
    cases target : m.target with
    | disabled =>
      simp only [resolveCanonical, mapping, target] at own
      cases own
    | path base =>
      rw [resolveCanonical_of_mappingFor? mapping target] at own
      exact ⟨m, rest, base, rfl, target, (Resolution.paths.inj own).symm⟩

end Resolver

namespace Session

open Resolver

/-- Whatever the mappings and the workspace are, the paths of a class lie at or below the directory that is searched
for its namespace, and so in a mapped namespace, if none of them comes from a star. If they do, the same holds for a
base that names a directory before the star and for extensions without slashes. -/
theorem resolved_paths_in_namespace (s : Session) (w : Workspace) (alternates : Table String) {name canonical : String}
    {found : List String} (resolved : s.resolver.resolve w alternates name = .ok (canonical, .paths found)) :
    ∃ m rest base, s.resolver.mappingFor? canonical = some (m, rest) ∧ m.target = .path base ∧
      (m.stem, String.ofList (baseDirectory base.toList)) ∈ s.resolver.baseDirectories ∧
      ('*' ∉ classPath base.toList rest.toList ∨
        NamesDirectory base.toList ∧ (∀ ext ∈ s.resolver.scripts, '/' ∉ ext.toList) →
        ∀ path ∈ found, isBelow (String.ofList (baseDirectory base.toList)) path = true ∧ s.inNamespace path = true) := by
  obtain ⟨m, rest, base, mapping, target, rfl⟩ := exists_mapping_of_resolve resolved
  have searched : (m.stem, String.ofList (baseDirectory base.toList)) ∈ s.resolver.baseDirectories := by
    rw [baseDirectories, List.mem_filterMap]
    exact ⟨m, (splits_of_mappingFor? mapping).1, by rw [target]⟩
  refine ⟨m, rest, base, mapping, target, searched, fun conditions path member => ?_⟩
  have below : isBelow (String.ofList (baseDirectory base.toList)) path = true := by
    rw [isBelow_iff, String.toList_ofList]
    by_cases star : '*' ∈ classPath base.toList rest.toList
    next =>
      obtain ⟨directory, clean⟩ := conditions.resolve_left (not_not_intro star)
      rw [if_pos (by simpa using star)] at member
      exact .inr (.inr (below_of_mem_expandStar directory clean star member))
    next =>
      rw [if_neg (by simpa using star), List.mem_singleton] at member
      rw [member, String.toList_ofList]
      rcases below_of_starless star with same | below
      next => exact .inr (.inl (by rw [same]))
      next => exact .inr (.inr below)
  refine ⟨below, ?_⟩
  rw [inNamespace, List.any_eq_true]
  exact ⟨_, searched, below⟩

theorem resolved_path_of_star_in_namespace :
    let s := blank "/" (Config.default.withMapping "Lib" (.path "/vendor/*")) [] []
    let w := Workspace.empty.write "/vendor/one/Foo.js" (.text "")
    s.resolver.resolve w ∅ "Lib" = .ok ("Lib", .paths ["/vendor/one/Foo"]) ∧
      s.inNamespace "/vendor/one/Foo" = true := by
  -- A star stands for all scripts below a directory.
  intro s w
  have resolved : s.resolver.resolve w ∅ "Lib" = .ok ("Lib", .paths ["/vendor/one/Foo"]) := by decide +kernel
  have mapping : s.resolver.mappingFor? "Lib" = some (⟨"Lib", .path "/vendor/*"⟩, "") := by decide +kernel
  have directory : NamesDirectory "/vendor/*".toList := ⟨by decide, by simp [beforeStar, Glob.opening], by decide⟩
  obtain ⟨m, rest, base, mapping', target, _, inside⟩ := resolved_paths_in_namespace s w ∅ resolved
  cases mapping.symm.trans mapping'
  cases target
  exact ⟨resolved, (inside (.inr ⟨directory, by decide +kernel⟩) _ List.mem_cons_self).2⟩

/-- A star inside a name, brackets in a directory and a slash in an extension all lead out of the directory that is
searched. -/
theorem resolved_paths_outside_namespace :
    let star := blank "/" (Config.default.withMapping "Lib" (.path "/vendor/a*")) [] []
    let brackets := blank "/" (Config.default.withMapping "Lib" (.path "/lib/[ab]")) [] []
    let slash := blank "/" { Config.default.withMapping "Lib" (.path "/app.d") with scripts := ["d/x.js", "js"] } [] []
    (star.resolver.resolve (Workspace.empty.write "/vendor/abc/Foo.js" (.text "")) ∅ "Lib" =
        .ok ("Lib", .paths ["/vendor/abc/Foo"]) ∧ star.inNamespace "/vendor/abc/Foo" = false) ∧
    (brackets.resolver.resolve (Workspace.empty.write "/lib/a/Foo.js" (.text "")) ∅ "Lib.*" =
        .ok ("Lib.*", .paths ["/lib/a/Foo"]) ∧ brackets.inNamespace "/lib/a/Foo" = false) ∧
    (slash.resolver.resolve (Workspace.empty.write "/app.d/x.js" (.text "")) ∅ "Lib.*" =
        .ok ("Lib.*", .paths ["/app"]) ∧ slash.inNamespace "/app" = false) := by
  decide +kernel

end Session

end ClassLinker
