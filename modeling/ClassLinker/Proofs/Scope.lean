import ClassLinker.Proofs.CacheHits
import ClassLinker.Proofs.GlobAnchors
import ClassLinker.Proofs.LastDefinition
import ClassLinker.Proofs.WorkspaceFiles

set_option autoImplicit false

namespace ClassLinker

open WebPath

theorem WebPath.eq_directory_append {path : List Char} (slash : '/' ∈ path) :
    ∃ rest, path = directory path ++ '/' :: rest := by
  obtain ⟨after, before, split, last⟩ := List.eq_append_cons_of_mem (List.mem_reverse.mpr slash)
  have inner : directory path = before.reverse := by
    have skipped : ∀ c ∈ after, decide (c ≠ '/') = true := by
      intro c member
      have other : c ≠ '/' := fun same => last (same ▸ member)
      simpa using other
    rw [directory, split, List.dropWhile_append_of_pos skipped, List.dropWhile_cons_of_neg (by simp)]
    rfl
  refine ⟨after.reverse, ?_⟩
  rw [inner, ← List.reverse_inj, split]
  simp

namespace Workspace

theorem not_mem_opening {c : Char} (plain : isMeta c = false) (other : c ≠ '\\') : c ∉ Glob.opening := by
  intro member
  simp only [Glob.opening, List.mem_cons, List.not_mem_nil, or_false] at member
  rcases member with rfl | rfl | rfl | rfl | rfl
  case inr.inr.inr.inl => exact other rfl
  all_goals simp [isMeta] at plain

theorem literalDirectory_cases (cs : List Char) :
    literalDirectory ('/' :: cs) = [] ∨ ∃ front rest, literalDirectory ('/' :: cs) = '/' :: front ∧
      cs = front ++ '/' :: rest ∧ ∀ c ∈ front, isMeta c = false := by
  let start := ('/' :: cs).takeWhile (! isMeta ·)
  have first : start = '/' :: cs.takeWhile (! isMeta ·) := by simp [start, isMeta]
  obtain ⟨rest, split⟩ := eq_directory_append (by simp [first] : '/' ∈ start)
  have dir : literalDirectory ('/' :: cs) = directory start := rfl
  rw [dir]
  cases front : directory start with
  | nil => exact .inl rfl
  | cons c front' =>
    right
    rw [front, first, List.cons_append] at split
    obtain ⟨rfl, inner⟩ := List.cons.inj split
    refine ⟨front', rest ++ cs.dropWhile (! isMeta ·), rfl, ?_, fun c member => ?_⟩
    next =>
      conv_lhs => rw [← List.takeWhile_append_dropWhile (p := (! isMeta ·)) (l := cs), inner]
      simp
    next =>
      have inside : c ∈ cs.takeWhile (! isMeta ·) := by simp [inner, member]
      simpa using List.mem_takeWhile_imp inside

end Workspace

namespace Session

theorem withoutSlashes_head (text : String) : (withoutSlashes text).toList.head? ≠ some '/' := by
  rw [withoutSlashes, String.toList_ofList]
  intro slash
  have := List.head?_dropWhile_not (· = '/') text.toList
  rw [slash] at this
  simp at this

/-- A pattern with at most one slash before it and none at its end, which names its directory in normal form. -/
structure IsPlainPattern (pattern : String) : Prop where
  slashes : withoutSlashes pattern = pattern ∨ "/" ++ withoutSlashes pattern = pattern
  ends : pattern.toList.getLast? ≠ some '/'
  directory : Workspace.literalDirectory ('/' :: (withoutSlashes pattern).toList) = [] ∨
    let directory := String.ofList (Workspace.literalDirectory ('/' :: (withoutSlashes pattern).toList))
    normalise directory [] = directory

section
variable {pattern : String} (plain : IsPlainPattern pattern)
include plain

theorem IsPlainPattern.slashed : (if pattern.toList.head? = some '/' then pattern.toList else '/' :: pattern.toList) =
    '/' :: (withoutSlashes pattern).toList := by
  have head := withoutSlashes_head pattern
  rcases plain.slashes with none | one
  next =>
    rw [none] at head ⊢
    rw [if_neg head]
  next =>
    have spelled : pattern.toList = '/' :: (withoutSlashes pattern).toList := by
      conv_lhs => rw [← one]
      simp
    rw [spelled]
    rfl

theorem IsPlainPattern.bare_ends : (withoutSlashes pattern).toList.getLast? ≠ some '/' := by
  rcases plain.slashes with none | one
  next =>
    rw [none]
    exact plain.ends
  next =>
    intro slash
    have filled : (withoutSlashes pattern).toList ≠ [] := by
      intro empty
      simp [empty] at slash
    apply plain.ends
    rw [← one, String.toList_append, List.getLast?_append_of_ne_nil _ filled, slash]

theorem IsPlainPattern.spells : ∃ names,
    Workspace.Spells (String.ofList (Workspace.literalDirectory ('/' :: (withoutSlashes pattern).toList))) names ∧
      ∀ {glob : Glob} {path : List Char}, Glob.parse (withoutSlashes pattern) = .ok glob →
        glob.accepts (String.ofList path) = true → names = [] ∨ ∃ rest, '/' :: path = trail names ++ '/' :: rest := by
  rcases plain.directory with root | normal
  next =>
    rw [root]
    exact ⟨[], Workspace.spells_root (.inl rfl), fun _ _ => .inl rfl⟩
  next =>
    obtain ⟨names, proper, spelled⟩ := normalise_eq_self_iff.mp normal
    refine ⟨names, Workspace.spells_of_normal proper spelled, fun {glob path} parsed accepted => ?_⟩
    by_cases root : names = []
    next => exact .inl root
    next =>
      right
      rw [String.toList_ofList, ofSegments_eq_trail root] at spelled
      have filled : trail names ≠ [] := by
        cases names with
        | nil => exact absurd rfl root
        | cons name names => simp
      rcases Workspace.literalDirectory_cases (withoutSlashes pattern).toList with empty | found
      next => exact absurd (spelled.symm.trans empty) filled
      next =>
        obtain ⟨front, rest, own, split, literal⟩ := found
        rw [own] at spelled
        have clean : ∀ c ∈ front, c ∉ Glob.opening := by
          intro c member
          have backslash : c ≠ '\\' := by
            rintro rfl
            exact backslash_not_mem_trail proper (spelled ▸ List.mem_cons_of_mem _ member)
          exact Workspace.not_mem_opening (literal c member) backslash
        rw [← String.ofList_toList (s := withoutSlashes pattern), split] at parsed
        obtain ⟨more, below⟩ := Glob.below_of_accepts clean parsed accepted
        rw [String.toList_ofList] at below
        exact ⟨more, by rw [below, ← spelled, List.cons_append]⟩

end

structure IsFile (w : Workspace) (file : String) (names : List (List Char)) : Prop where
  proper : ∀ name ∈ names, IsName name
  filled : names ≠ []
  spelled : file.toList = trail names
  present : w.hasFile file = true

theorem isFile_of_normal {w : Workspace} {file : String} (present : w.hasFile file = true)
    (normal : normalise file [] = file) : ∃ names, IsFile w file names := by
  obtain ⟨names, proper, spelled⟩ := normalise_eq_self_iff.mp normal
  have filled : names ≠ [] := by
    rintro rfl
    have root : file = "/" := String.toList_inj.mp spelled
    subst root
    cases present
  exact ⟨names, proper, filled, by rw [spelled, ofSegments_eq_trail filled], present⟩

section
variable {w : Workspace} {file : String} {names : List (List Char)} (isFile : IsFile w file names)
include isFile

theorem IsFile.mem_walk_iff (plain : w.isPlain = true) {directory : String} {outer : List (List Char)}
    (spells : Workspace.Spells directory outer) :
    file ∈ w.walk directory ↔ ∃ inner, inner ≠ [] ∧ names = outer ++ inner := by
  constructor
  next =>
    intro member
    obtain ⟨inner, filled, proper, spelled⟩ := Workspace.mem_walk plain spells member
    refine ⟨inner, filled, trail_inj (fun name member => (isFile.proper name member).slash)
      (fun name member => (proper name member).slash) ?_⟩
    rw [← isFile.spelled, spelled]
  next =>
    rintro ⟨inner, filled, rfl⟩
    have proper : ∀ name ∈ inner, IsName name := fun name member => isFile.proper name (List.mem_append_right _ member)
    exact Workspace.walk_of_hasFile spells filled proper isFile.spelled isFile.present

theorem IsFile.below_iff {directory : String} {outer : List (List Char)} (spells : Workspace.Spells directory outer) :
    (∃ rest, trail names = trail outer ++ '/' :: rest) ↔ ∃ inner, inner ≠ [] ∧ names = outer ++ inner :=
  trail_below_iff (fun name member => (isFile.proper name member).slash)
    (fun name member => (spells.proper name member).slash)

theorem IsFile.bare : file.toList = '/' :: (withoutSlashes file).toList := by
  obtain ⟨name, names, rfl⟩ := List.exists_cons_of_ne_nil isFile.filled
  have inner : (name ++ trail names).dropWhile (· = '/') = name ++ trail names :=
    (Workspace.trail_cons_inner (isFile.proper name List.mem_cons_self)).1
  rw [withoutSlashes, String.toList_ofList, isFile.spelled, trail_cons, List.cons_append,
    List.dropWhile_cons_of_pos (by simp), inner]

theorem IsFile.mem_expand_iff (plain : w.isPlain = true) {pattern : String} (plainPattern : IsPlainPattern pattern)
    {glob : Glob} (parsed : Glob.parse (withoutSlashes pattern) = .ok glob) :
    file ∈ w.expand pattern ↔ glob.accepts (withoutSlashes file) = true := by
  obtain ⟨outer, spells, below⟩ := plainPattern.spells
  have parsed' := parsed
  rw [← String.ofList_toList (s := withoutSlashes pattern)] at parsed'
  obtain ⟨slashed, read, accepts⟩ := Glob.accepts_slash parsed' plainPattern.bare_ends
  have expanded : w.expand pattern = (w.walk (String.ofList
      (Workspace.literalDirectory ('/' :: (withoutSlashes pattern).toList)))).filter slashed.accepts := by
    unfold Workspace.expand
    simp only [plainPattern.slashed, read]
  have whole : slashed.accepts file = glob.accepts (withoutSlashes file) := by
    have same := accepts (withoutSlashes file).toList
    rwa [← isFile.bare, String.ofList_toList, String.ofList_toList] at same
  rw [expanded, List.mem_filter, whole, isFile.mem_walk_iff plain spells]
  -- nothing is lost by a walk of one directory, for all that is accepted lies below it
  constructor
  next => exact fun member => member.2
  next =>
    intro accepted
    refine ⟨?_, accepted⟩
    rw [← String.ofList_toList (s := withoutSlashes file)] at accepted
    rcases below parsed accepted with root | ⟨rest, split⟩
    next => exact ⟨names, isFile.filled, by simp [root]⟩
    next =>
      rw [← isFile.bare, isFile.spelled] at split
      exact (isFile.below_iff spells).mp ⟨rest, split⟩

end

theorem isScript_eq (s : Session) (file : String) : s.isScript file = Workspace.hasExtension s.config.scripts file := by
  rw [Bool.eq_iff_iff]
  unfold isScript Workspace.hasExtension
  have same : withoutScriptExtension file s.config.scripts = file ↔
      ∀ ext ∈ s.config.scripts, withoutExtension? ext.toList file.toList = none := by
    rw [← dropExtension_eq_self_iff, withoutScriptExtension, ← String.toList_inj, String.toList_ofList]
  rw [bne_iff_ne, ne_eq, same, List.any_eq_true]
  simp [Option.isSome_iff_ne_none]

theorem isBelow_iff {directory path : String} : isBelow directory path = true ↔
    directory = "/" ∨ path = directory ∨ ∃ rest, path.toList = directory.toList ++ '/' :: rest := by
  simp only [isBelow, Bool.or_eq_true, beq_iff_eq, Option.any_eq_true, Text.dropStart?_eq_some, decide_eq_true_eq,
    or_assoc]
  constructor
  next =>
    rintro (root | same | ⟨rest, split, slash⟩)
    next => exact .inl root
    next => exact .inr (.inl same)
    next =>
      obtain ⟨more, rfl⟩ := List.head?_eq_some_iff.mp slash
      exact .inr (.inr ⟨more, split⟩)
  next =>
    rintro (root | same | ⟨rest, split⟩)
    next => exact .inl root
    next => exact .inr (.inl same)
    next => exact .inr (.inr ⟨'/' :: rest, split, rfl⟩)

def IsPlainDirectory (directory : String) : Prop := directory = "" ∨ normalise directory [] = directory

theorem IsPlainDirectory.spells {directory : String} (plain : IsPlainDirectory directory) :
    ∃ outer, Workspace.Spells directory outer ∧ (outer = [] ∧ (directory = "" ∨ directory = "/") ∨
      outer ≠ [] ∧ directory.toList = trail outer) := by
  rcases plain with rfl | normal
  next => exact ⟨[], Workspace.spells_root (.inl rfl), .inl ⟨rfl, .inl rfl⟩⟩
  next =>
    obtain ⟨outer, proper, spelled⟩ := normalise_eq_self_iff.mp normal
    refine ⟨outer, Workspace.spells_of_normal proper spelled, ?_⟩
    by_cases root : outer = []
    next =>
      subst root
      exact .inl ⟨rfl, .inr (String.toList_inj.mp spelled)⟩
    next => exact .inr ⟨root, by rw [spelled, ofSegments_eq_trail root]⟩

section
variable {w : Workspace} {file : String} {names : List (List Char)} (isFile : IsFile w file names)
include isFile

theorem IsFile.toList_pathOf (s : Session) :
    (s.pathOf file).toList = dropExtension s.config.scripts file.toList := by
  rw [pathOf, normalise, String.toList_ofList, normaliseChars, isFile.spelled, segments_trail isFile.proper,
    ofSegments_eq_trail isFile.filled]

theorem IsFile.pathOf_below_iff {s : Session} (clean : ∀ ext ∈ s.config.scripts, '/' ∉ ext.toList)
    (directory : List Char) : (∃ rest, (s.pathOf file).toList = directory ++ '/' :: rest) ↔
      ∃ rest, file.toList = directory ++ '/' :: rest := by
  rw [isFile.toList_pathOf s]
  exact dropExtension_below_iff clean file.toList directory

theorem IsFile.isBelow_iff {s : Session} (plain : w.isPlain = true)
    (clean : ∀ ext ∈ s.config.scripts, '/' ∉ ext.toList) {directory : String}
    (plainDirectory : IsPlainDirectory directory) (beside : s.pathOf file ≠ directory) :
    isBelow directory (s.pathOf file) = true ↔ file ∈ w.walk directory := by
  obtain ⟨outer, spells, root | ⟨inner, spelled⟩⟩ := plainDirectory.spells
  next =>
    obtain ⟨rfl, root⟩ := root
    have walked : file ∈ w.walk directory := (isFile.mem_walk_iff plain spells).mpr ⟨names, isFile.filled, rfl⟩
    refine iff_of_true (Session.isBelow_iff.mpr ?_) walked
    rcases root with rfl | rfl
    next =>
      have slash : ∃ rest, file.toList = [] ++ '/' :: rest := ⟨_, isFile.bare⟩
      exact .inr (.inr ((isFile.pathOf_below_iff clean []).mpr slash))
    next => exact .inl rfl
  next =>
    have notRoot : directory ≠ "/" := by
      rintro rfl
      obtain ⟨name, more, rfl⟩ := List.exists_cons_of_ne_nil inner
      have first := (spells.proper name List.mem_cons_self).filled
      simp [first] at spelled
    rw [Session.isBelow_iff, isFile.mem_walk_iff plain spells, isFile.pathOf_below_iff clean, spelled, isFile.spelled,
      isFile.below_iff spells]
    simp only [notRoot, beside, false_or]

end

theorem globs_cons {pattern : String} {patterns : List String} {found : List Glob}
    (read : globs (pattern :: patterns) = .ok found) :
    ∃ glob more, Glob.parse (withoutSlashes pattern) = .ok glob ∧ globs patterns = .ok more ∧ found = glob :: more := by
  rw [globs, List.mapM_cons] at read
  simp only at read
  cases first : Glob.parse (withoutSlashes pattern) with
  | error fault =>
    rw [first] at read
    cases read
  | ok glob =>
    rw [first] at read
    change (globs patterns).bind (fun more => .ok (glob :: more)) = .ok found at read
    cases rest : globs patterns with
    | error problem =>
      rw [rest] at read
      cases read
    | ok more =>
      rw [rest] at read
      cases read
      exact ⟨glob, more, rfl, rfl, rfl⟩

theorem parse_of_globs {patterns : List String} {found : List Glob} (read : globs patterns = .ok found)
    {pattern : String} (listed : pattern ∈ patterns) : ∃ glob, Glob.parse (withoutSlashes pattern) = .ok glob := by
  induction patterns generalizing found with
  | nil => cases listed
  | cons first patterns ih =>
    obtain ⟨glob, more, parsed, rest, _⟩ := globs_cons read
    rcases List.mem_cons.mp listed with rfl | listed
    next => exact ⟨glob, parsed⟩
    next => exact ih rest listed

theorem accepts_of_globs {patterns : List String} {found : List Glob} (read : globs patterns = .ok found) (file : String) :
    accepts found file = true ↔ ∃ pattern ∈ patterns, ∃ glob, Glob.parse (withoutSlashes pattern) = .ok glob ∧
      glob.accepts (withoutSlashes file) = true := by
  induction patterns generalizing found with
  | nil =>
    cases read
    simp [accepts]
  | cons pattern patterns ih =>
    obtain ⟨glob, more, first, rest, rfl⟩ := globs_cons read
    have others := ih rest
    simp only [accepts, List.any_cons, Bool.or_eq_true, List.exists_mem_cons_iff, first] at others ⊢
    rw [others]
    simp

/-- The settings are written plainly: the mapped directories are in normal form, and so are the directories that the
patterns name; extensions have no slashes. -/
structure IsPlain (s : Session) : Prop where
  directories : ∀ x ∈ s.resolver.baseDirectories, IsPlainDirectory x.2
  patterns : ∀ pattern ∈ s.config.included, IsPlainPattern pattern
  scripts : ∀ ext ∈ s.config.scripts, '/' ∉ ext.toList

theorem mem_candidates {s : Session} {w : Workspace} {file : String} : file ∈ s.candidates w ↔
    (∃ x ∈ s.resolver.baseDirectories, file ∈ w.walk x.2 ∧ s.isScript file = true) ∨
      ∃ pattern ∈ s.config.included, file ∈ w.expand pattern := by
  simp only [candidates, mem_sortedUnique, List.mem_append, List.mem_flatMap, Workspace.list, List.mem_filter,
    isScript_eq]

section
variable {s : Session} {w : Workspace} (plain : w.isPlain = true) (settings : s.IsPlain)
  (configured : globs s.config.included = .ok s.included)
include plain settings

theorem normal_of_mem_candidates {file : String} (member : file ∈ s.candidates w) : normalise file [] = file := by
  have normal {directory : String} {outer : List (List Char)} (spells : Workspace.Spells directory outer)
      (member : file ∈ w.walk directory) : normalise file [] = file := by
    obtain ⟨inner, filled, proper, spelled⟩ := Workspace.mem_walk plain spells member
    exact normalise_eq_self_iff.mpr ⟨outer ++ inner, proper, by rw [spelled, ofSegments_eq_trail (by simp [filled])]⟩
  rcases mem_candidates.mp member with ⟨x, mapped, walked, _⟩ | ⟨pattern, listed, expanded⟩
  next =>
    obtain ⟨outer, spells, _⟩ := (settings.directories x mapped).spells
    exact normal spells walked
  next =>
    have plainPattern := settings.patterns pattern listed
    obtain ⟨outer, spells, _⟩ := plainPattern.spells
    unfold Workspace.expand at expanded
    simp only [plainPattern.slashed] at expanded
    split at expanded
    next => cases expanded
    next => exact normal spells (List.mem_of_mem_filter expanded)

include configured

theorem IsFile.isIncluded_iff {file : String} {names : List (List Char)} (isFile : IsFile w file names) :
    s.isIncluded file = true ↔ ∃ pattern ∈ s.config.included, file ∈ w.expand pattern := by
  rw [isIncluded, accepts_of_globs configured]
  apply exists_congr
  intro pattern
  apply and_congr_right
  intro listed
  have plainPattern := settings.patterns pattern listed
  constructor
  next =>
    rintro ⟨glob, parsed, accepted⟩
    exact (isFile.mem_expand_iff plain plainPattern parsed).mpr accepted
  next =>
    intro expanded
    obtain ⟨glob, parsed⟩ := parse_of_globs configured listed
    exact ⟨glob, parsed, (isFile.mem_expand_iff plain plainPattern parsed).mp expanded⟩

theorem IsFile.mem_candidates_iff {file : String} {names : List (List Char)} (isFile : IsFile w file names)
    (beside : ∀ x ∈ s.resolver.baseDirectories, s.pathOf file ≠ x.2) :
    file ∈ s.candidates w ↔ s.isIncluded file = true ∨ s.isScript file = true ∧ s.inNamespace (s.pathOf file) = true := by
  have mapped : s.inNamespace (s.pathOf file) = true ↔ ∃ x ∈ s.resolver.baseDirectories, file ∈ w.walk x.2 := by
    rw [inNamespace, List.any_eq_true]
    apply exists_congr
    intro x
    apply and_congr_right
    intro listed
    exact isFile.isBelow_iff plain settings.scripts (settings.directories x listed) (beside x listed)
  rw [mem_candidates, isFile.isIncluded_iff plain settings configured, mapped, or_comm]
  grind

end

def examined (s : Session) (w : Workspace) : List String := (s.candidates w).filter (! s.isExcluded ·)

def Examines (s : Session) (w : Workspace) (file : String) : Prop := ∃ c ∈ s.examined w, normalise c [] = file

instance (s : Session) (w : Workspace) (file : String) : Decidable (s.Examines w file) :=
  inferInstanceAs (Decidable (∃ c ∈ s.examined w, normalise c [] = file))

def failure? (s : Session) (w : Workspace) (file : String) : Option Diagnostic :=
  match w.read file with
  | .error fault => some ((Problem.unreadable file fault.message).toDiagnostic (s.pathOf file))
  | .ok source =>
    match s.analyse (s.pathOf file) source with
    | .error problem => some (problem.toDiagnostic (s.pathOf file))
    | .ok _ => none

structure Tally.Counts (s : Session) (w : Workspace) (t : Tally) (met : List String) : Prop where
  settings : SameSettings s t.session
  files : t.files = (met.filter (! s.isExcluded ·)).countP fun file => (w.read file).isOk
  skipped : t.skipped = met.countP s.isExcluded
  failed : t.failed = (met.filter (! s.isExcluded ·)).filterMap (s.failure? w)

theorem Tally.Counts.add {s : Session} {w : Workspace} {t : Tally} {met : List String} (counts : t.Counts s w met)
    (file : String) : (t.add w file).Counts s w (met ++ [file]) := by
  have same := counts.settings
  unfold Tally.add
  rw [same.isExcluded]
  cases excluded : s.isExcluded file with
  | true =>
    refine ⟨same, ?_, ?_, ?_⟩
    next => simp [counts.files, excluded]
    next => simp [counts.skipped, excluded]
    next => simp [counts.failed, excluded]
  | false =>
    simp only [Bool.false_eq_true, if_false]
    cases read : w.read file with
    | error fault =>
      refine ⟨same, ?_, ?_, ?_⟩
      next => simp [counts.files, excluded, read, Except.isOk, Except.toBool]
      next => simp [counts.skipped, excluded]
      next => simp [counts.failed, excluded, failure?, read, same.pathOf]
    | ok source =>
      simp only
      unfold define
      rw [same.pathOf, same.analyse]
      cases analysed : s.analyse (s.pathOf file) source with
      | error problem =>
        refine ⟨same.trans ⟨rfl, rfl, rfl, rfl, rfl⟩, ?_, ?_, ?_⟩
        next => simp [counts.files, excluded, read, Except.isOk, Except.toBool]
        next => simp [counts.skipped, excluded]
        next => simp [counts.failed, excluded, failure?, read, analysed]
      | ok a =>
        refine ⟨same.trans ⟨rfl, rfl, rfl, rfl, rfl⟩, ?_, ?_, ?_⟩
        next => simp [counts.files, excluded, read, Except.isOk, Except.toBool]
        next => simp [counts.skipped, excluded]
        next => simp [counts.failed, excluded, failure?, read, analysed]

theorem Tally.Counts.adds {s : Session} {w : Workspace} {t : Tally} {met : List String} (counts : t.Counts s w met)
    (files : List String) : (files.foldl (Tally.add w) t).Counts s w (met ++ files) := by
  induction files generalizing t met with
  | nil => simpa using counts
  | cons file files ih =>
    have more := ih (counts.add file)
    rwa [List.append_assoc] at more

theorem report_counts {s : Session} {w : Workspace} {report : DiscoveryReport} (found : (s.discover w).1 = .ok report) :
    report.files = (s.examined w).countP (fun file => (w.read file).isOk) ∧
      report.failed = (s.examined w).filterMap (s.failure? w) := by
  let fresh : Session := { s.cleared with generation := s.generation + 1 }
  let tally := (fresh.candidates w).foldl (Tally.add w) { session := fresh }
  have same : SameSettings s fresh := ⟨rfl, rfl, rfl, rfl, rfl⟩
  have start : Tally.Counts s w { session := fresh } [] := ⟨same, rfl, rfl, rfl⟩
  have counts := start.adds (fresh.candidates w)
  rw [List.nil_append, same.candidates] at counts
  have made : ∃ (check : Except Problem Unit) (made : DiscoveryReport), made.files = tally.files ∧
      made.failed = tally.failed ∧ (s.discover w).1 = check.map fun _ => made := ⟨_, _, rfl, rfl, rfl⟩
  obtain ⟨check, made, files, failed, outcome⟩ := made
  rw [found] at outcome
  cases check with
  | error problem => cases outcome
  | ok _ =>
    cases outcome
    rw [files, failed]
    exact ⟨counts.files, counts.failed⟩

theorem transform_none_iff {s : Session} {w : Workspace} {id source : String} :
    (s.transform w id source).1 = .ok none ↔ ¬ s.Transforms id := by
  by_cases transforms : s.Transforms id
  next =>
    rw [transform_eq transforms]
    simp only [transforms, not_true, iff_false]
    cases s.cache.lookup (s.pathOf (s.fileOf id)) (Digest.fingerprint source) with
    | hit output => simp
    | failed problem => simp
    | miss => cases (s.transformNew w (s.pathOf (s.fileOf id)) source).1 <;> simp [Except.map]
  next => simp [transform_outside transforms, transforms]

theorem inScope_iff {s : Session} {file : String} : s.inScope file = true ↔
    s.isScript file = true ∧ s.isExcluded file = false ∧
      (s.isIncluded file = true ∨ s.inNamespace (s.pathOf file) = true) := by
  simp only [inScope, Bool.and_eq_true, Bool.or_eq_true, Bool.not_eq_true', and_assoc]

theorem SameSettings.isPlain {s s' : Session} (same : SameSettings s s') (plain : s.IsPlain) : s'.IsPlain :=
  ⟨same.resolver ▸ plain.directories, same.config ▸ plain.patterns, same.config ▸ plain.scripts⟩

/-- If the settings are written plainly, a search reads exactly the files that are not excluded and that are included or
are scripts in a mapped directory. A file is transformed exactly if it is a script that a search reads. The condition
on the path keeps out files that lie beside a mapped directory of the same name. -/
theorem search_and_transform_agree {root : String} {config : Config} {start : Session}
    (created : create root config = .ok start) (settings : start.IsPlain) (calls : List Call) {w : Workspace}
    (plain : w.isPlain = true) {file : String} (present : w.hasFile file = true) (normal : normalise file [] = file)
    (noQuery : '?' ∉ (root ++ file).toList)
    (beside : ∀ x ∈ start.resolver.baseDirectories, start.pathOf file ≠ x.2) :
    let s := start.run calls
    (∀ report, (s.discover w).1 = .ok report →
      report.files = (s.examined w).countP (fun c => (w.read c).isOk) ∧
        report.failed = (s.examined w).filterMap (s.failure? w)) ∧
    (s.Examines w file ↔ s.isExcluded file = false ∧
      (s.isIncluded file = true ∨ s.isScript file = true ∧ s.inNamespace (s.pathOf file) = true)) ∧
    (isAlwaysSkipped (root ++ file) = false → ∀ (w' : Workspace) (source : String),
      (s.transform w' (root ++ file) source).1 ≠ .ok none ↔ s.isScript file = true ∧ s.Examines w file) := by
  intro s
  have same : SameSettings start s := run_sameSettings start calls
  have settings' : s.IsPlain := same.isPlain settings
  have configured : globs s.config.included = .ok s.included := by
    obtain ⟨included, excluded, read, _, rfl⟩ := create_eq_blank.mp created
    rw [same.config, same.included]
    exact read
  have root_eq : s.root = root := by
    obtain ⟨included, excluded, _, _, rfl⟩ := create_eq_blank.mp created
    exact same.root
  obtain ⟨names, isFile⟩ := isFile_of_normal present normal
  have candidate : file ∈ s.candidates w ↔
      s.isIncluded file = true ∨ s.isScript file = true ∧ s.inNamespace (s.pathOf file) = true := by
    apply isFile.mem_candidates_iff plain settings' configured
    rw [same.resolver, same.pathOf]
    exact beside
  have examines : s.Examines w file ↔ s.isExcluded file = false ∧ file ∈ s.candidates w := by
    constructor
    next =>
      rintro ⟨c, member, rfl⟩
      rw [examined, List.mem_filter] at member
      rw [normal_of_mem_candidates plain settings' member.1]
      exact ⟨by simpa using member.2, member.1⟩
    next =>
      rintro ⟨kept, member⟩
      exact ⟨file, List.mem_filter.mpr ⟨member, by simp [kept]⟩, normal⟩
  refine ⟨fun report found => report_counts found, by rw [examines, candidate], ?_⟩
  intro wanted w' source
  have known : s.fileOf (root ++ file) = file := by
    rw [fileOf, root_eq]
    exact ofFileId_root_append normal noQuery
  rw [ne_eq, transform_none_iff, not_not, Transforms, known, examines, candidate]
  constructor
  next =>
    rintro ⟨_, scope⟩
    obtain ⟨script, kept, place⟩ := inScope_iff.mp scope
    exact ⟨script, kept, place.imp_right fun mapped => ⟨script, mapped⟩⟩
  next =>
    rintro ⟨script, kept, place⟩
    exact ⟨wanted, inScope_iff.mpr ⟨script, kept, place.imp_right And.right⟩⟩

set_option maxRecDepth 100000 in
theorem search_and_transform_agree_on_three_files :
    let config := { Config.default.withMapping "N" (.path "/src") with
      included := ["notes/**/*.txt"], excluded := ["src/**/old/*.js"] }
    let w : Workspace := ⟨[
      ("notes", .directory [("a", .directory [("c.txt", .file (.text "f()"))])]),
      ("src", .directory [("A.js", .file (.text "f()")), ("old", .directory [("B.js", .file (.text "f()"))])])]⟩
    ∃ start, create "/r" config = .ok start ∧
      (start.Examines w "/src/A.js" ∧ (start.transform w "/r/src/A.js" "f()").1 ≠ .ok none) ∧
      (¬ start.Examines w "/src/old/B.js" ∧ (start.transform w "/r/src/old/B.js" "f()").1 = .ok none) ∧
      start.Examines w "/notes/a/c.txt" ∧ (start.transform w "/r/notes/a/c.txt" "f()").1 = .ok none := by
  -- A script in a mapped directory, one that a pattern excludes, and a text that a pattern includes.
  intro config w
  have runs : ∃ start, create "/r" config = .ok start ∧ start.config = config ∧
      start.resolver.baseDirectories = [("N", "/src")] ∧
      (∀ file ∈ ["/src/A.js", "/src/old/B.js", "/notes/a/c.txt"], start.pathOf file ≠ "/src") ∧
      start.inScope "/src/A.js" = true ∧ start.isExcluded "/src/old/B.js" = true ∧
      start.isIncluded "/notes/a/c.txt" = true ∧ start.isScript "/notes/a/c.txt" = false :=
    ⟨_, rfl, rfl, by decide +kernel, by decide +kernel, by decide +kernel, by decide +kernel, by decide +kernel,
      by decide +kernel⟩
  obtain ⟨start, created, own, directories, beside, inside, excluded, included, text⟩ := runs
  have settings : start.IsPlain := by
    refine ⟨?_, ?_, ?_⟩
    next =>
      simp only [directories, List.mem_singleton, forall_eq]
      exact .inr (by decide +kernel)
    next =>
      simp only [own, config, List.mem_singleton, forall_eq]
      exact ⟨by decide +kernel, by decide +kernel, .inr (by decide +kernel)⟩
    next =>
      rw [own]
      decide +kernel
  have plain : w.isPlain = true := by decide +kernel
  have agree (file : String) (listed : file ∈ ["/src/A.js", "/src/old/B.js", "/notes/a/c.txt"])
      (present : w.hasFile file = true) (normal : normalise file [] = file) (noQuery : '?' ∉ ("/r" ++ file).toList) :=
    search_and_transform_agree created settings [] plain present normal noQuery (by
      rw [directories]
      simpa using beside file listed)
  obtain ⟨script, kept, place⟩ := inScope_iff.mp inside
  refine ⟨start, created, ?_, ?_, ?_⟩
  next =>
    obtain ⟨_, read, answered⟩ := agree "/src/A.js" (by simp) (by decide +kernel) (by decide +kernel) (by decide +kernel)
    have examines := read.mpr ⟨kept, place.imp_right fun mapped => ⟨script, mapped⟩⟩
    exact ⟨examines, (answered (by decide +kernel) w "f()").mpr ⟨script, examines⟩⟩
  next =>
    obtain ⟨_, read, answered⟩ :=
      agree "/src/old/B.js" (by simp) (by decide +kernel) (by decide +kernel) (by decide +kernel)
    have unread : ¬ start.Examines w "/src/old/B.js" := by
      intro examines
      have kept' := (read.mp examines).1
      rw [run_nil, excluded] at kept'
      cases kept'
    refine ⟨unread, not_not.mp fun some => unread ?_⟩
    exact ((answered (by decide +kernel) w "f()").mp some).2
  next =>
    obtain ⟨_, read, answered⟩ :=
      agree "/notes/a/c.txt" (by simp) (by decide +kernel) (by decide +kernel) (by decide +kernel)
    have kept' : start.isExcluded "/notes/a/c.txt" = false := by simp [isExcluded, included]
    refine ⟨read.mpr ⟨kept', .inl included⟩, not_not.mp fun some => ?_⟩
    have script' := ((answered (by decide +kernel) w "f()").mp some).1
    rw [run_nil, text] at script'
    cases script'

theorem transform_none_iff_of_apart {s : Session} {w : Workspace} {id file : String}
    (wanted : isAlwaysSkipped id = false) (apart : decide (s.Examines w file) = ! s.inScope (s.fileOf id))
    (source : String) : (s.transform w id source).1 = .ok none ↔ s.Examines w file := by
  rw [transform_none_iff, Transforms, wanted, ← decide_eq_true_iff (p := s.Examines w file), apart]
  simp

set_option maxRecDepth 100000 in
/-- A text that a pattern includes is read by a search, but it is not transformed. The two also part where settings or
names are not written plainly: where a mapped directory or the directory of a pattern is not in normal form, a pattern
starts with two slashes, ends with one or has a backslash, an extension has a slash, a file name has a question mark or
a backslash, or a script lies beside a mapped directory of the same name. -/
theorem search_and_transform_disagree :
    let source : Workspace.Node := .file (.text "f()")
    let parts (config : Config) (w : Workspace) (file : String) : Prop :=
      ∃ start, create "/r" config = .ok start ∧ w.hasFile file = true ∧ isAlwaysSkipped ("/r" ++ file) = false ∧
        ((start.transform w ("/r" ++ file) "f()").1 = .ok none ↔ start.Examines w file)
    let src : Workspace := ⟨[("src", .directory [("A.js", source)])]⟩
    let lib : Workspace := ⟨[("lib", .directory [("A.js", source)]), ("src", .directory [("x", source)])]⟩
    let mapped (directory : String) : Config := Config.default.withMapping "N" (.path directory)
    let including (pattern : String) : Config := { Config.default with included := [pattern] }
    (∃ start, create "/r" (including "src/*.txt") = .ok start ∧
      let w : Workspace := ⟨[("src", .directory [("a.txt", source)])]⟩
      w.hasFile "/src/a.txt" = true ∧ start.Examines w "/src/a.txt" ∧
      ((start.discover w).1.toOption.map (·.files)) = some 1 ∧ isAlwaysSkipped "/r/src/a.txt" = false ∧
      start.inScope (start.fileOf "/r/src/a.txt") = false ∧ (start.transform w "/r/src/a.txt" "f()").1 = .ok none) ∧
    parts (mapped ".") ⟨[("A.js", source)]⟩ "/A.js" ∧ parts (mapped "/src/../lib") lib "/lib/A.js" ∧
    parts (including "src/../lib/*.js") lib "/lib/A.js" ∧ parts (including "//src/*.js") src "/src/A.js" ∧
    parts (including "**/") src "/src/A.js" ∧ parts (including "s\\rc/*.js") src "/src/A.js" ∧
    parts { mapped "/src/a.s" with scripts := ["s/x"] }
      ⟨[("src", .directory [("a.s", .directory [("x", source)])])]⟩ "/src/a.s/x" ∧
    parts (mapped "/src") ⟨[("src", .directory [("A?.js", source)])]⟩ "/src/A?.js" ∧
    parts (mapped "/src") ⟨[("src\\A.js", source)]⟩ "/src\\A.js" ∧
    parts (mapped "/src") ⟨[("src.js", source)]⟩ "/src.js" := by
  intro source parts src lib mapped including
  have parted {config : Config} {w : Workspace} {file : String} (runs : ∃ start, create "/r" config = .ok start ∧
      w.hasFile file = true ∧ isAlwaysSkipped ("/r" ++ file) = false ∧
      decide (start.Examines w file) = ! start.inScope (start.fileOf ("/r" ++ file))) : parts config w file := by
    obtain ⟨start, created, present, wanted, apart⟩ := runs
    exact ⟨start, created, present, wanted, transform_none_iff_of_apart wanted apart "f()"⟩
  refine ⟨?_, parted ⟨_, rfl, by decide +kernel⟩, parted ⟨_, rfl, by decide +kernel⟩, parted ⟨_, rfl, by decide +kernel⟩,
    parted ⟨_, rfl, by decide +kernel⟩, parted ⟨_, rfl, by decide +kernel⟩, parted ⟨_, rfl, by decide +kernel⟩,
    parted ⟨_, rfl, by decide +kernel⟩, parted ⟨_, rfl, by decide +kernel⟩, parted ⟨_, rfl, by decide +kernel⟩,
    parted ⟨_, rfl, by decide +kernel⟩⟩
  let w : Workspace := ⟨[("src", .directory [("a.txt", source)])]⟩
  have runs : ∃ start, create "/r" (including "src/*.txt") = .ok start ∧ start.Examines w "/src/a.txt" ∧
      ((start.discover w).1.toOption.map (·.files)) = some 1 ∧
      start.inScope (start.fileOf "/r/src/a.txt") = false :=
    ⟨_, rfl, by decide +kernel, by decide +kernel, by decide +kernel⟩
  obtain ⟨start, created, read, count, outside⟩ := runs
  have wanted : isAlwaysSkipped "/r/src/a.txt" = false := by decide +kernel
  have unchanged := (transform_none_iff_of_apart wanted (by simp [read, outside]) "f()").mpr read
  exact ⟨start, created, by decide +kernel, read, count, wanted, outside, unchanged⟩

end Session

end ClassLinker
