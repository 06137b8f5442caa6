import ClassLinker.Proofs.MappedDirectories
import ClassLinker.Proofs.Walks

set_option autoImplicit false

namespace ClassLinker.Workspace

open WebPath

def startOf (pattern : String) : List Char := literalDirectory (fromRoot pattern.toList)

theorem fromRoot_eq_startOf_append (pattern : String) :
    ∃ rest, fromRoot pattern.toList = startOf pattern ++ '/' :: rest ∧ ∀ c ∈ startOf pattern, isMeta c = false := by
  obtain ⟨cs, rooted⟩ := fromRoot_eq_cons pattern.toList
  rw [startOf, rooted]
  rcases literalDirectory_cases cs with none | ⟨front, rest, start, split, literal⟩
  next => exact ⟨cs, by rw [none, List.nil_append], by simp [none]⟩
  next => exact ⟨rest, by rw [start, split, List.cons_append], by simpa [start] using ⟨rfl, literal⟩⟩

theorem below_startOf_of_accepts {pattern : String} {glob : Glob} (clean : '\\' ∉ startOf pattern)
    (parsed : Glob.parse (String.ofList (fromRoot pattern.toList)) = .ok glob) {path : String}
    (accepted : glob.accepts path = true) : ∃ more, path.toList = startOf pattern ++ '/' :: more := by
  obtain ⟨rest, split, literal⟩ := fromRoot_eq_startOf_append pattern
  rw [split] at parsed
  refine Glob.below_of_accepts (fun c member => not_mem_opening (literal c member) ?_) parsed accepted
  rintro rfl
  exact clean member

theorem eq_trail_of_below {names : List (List Char)} (clean : ∀ name ∈ names, '/' ∉ name) {start rest : List Char}
    (below : trail names = start ++ '/' :: rest) :
    ∃ outer inner, inner ≠ [] ∧ names = outer ++ inner ∧ start = trail outer := by
  have parts := congrArg (Text.splitOn '/') below
  rw [splitOn_trail clean, Text.splitOn_append] at parts
  cases first : Text.splitOn '/' start with
  | nil => exact absurd first (Text.splitOn_ne_nil '/' start)
  | cons part outer =>
    rw [first, List.cons_append] at parts
    obtain ⟨rfl, split⟩ := List.cons.inj parts
    refine ⟨outer, Text.splitOn '/' rest, Text.splitOn_ne_nil '/' rest, split, ?_⟩
    rw [← Text.joinWith_splitOn '/' start, first, Resolver.joinWith_cons, List.nil_append]

theorem spells_trail {names : List (List Char)} (proper : ∀ name ∈ names, IsName name) :
    Spells (String.ofList (trail names)) names := by
  by_cases root : names = []
  next =>
    rw [root]
    exact spells_root (.inl rfl)
  next => exact spells_of_normal proper (by rw [String.toList_ofList, ofSegments_eq_trail root])

theorem exists_part_of_mem {sep c : Char} {cs : List Char} (member : c ∈ cs) (other : c ≠ sep) :
    ∃ part ∈ Text.splitOn sep cs, c ∈ part := by
  induction cs with
  | nil => cases member
  | cons d cs ih =>
    by_cases same : d = sep
    next =>
      rw [Text.splitOn, if_pos same]
      obtain ⟨part, among, inside⟩ := ih (List.mem_of_ne_of_mem (same ▸ other) member)
      exact ⟨part, List.mem_cons_of_mem _ among, inside⟩
    next =>
      cases parts : Text.splitOn sep cs with
      | nil => exact absurd parts (Text.splitOn_ne_nil sep cs)
      | cons first more =>
        rw [Text.splitOn, if_neg same, parts]
        rw [parts] at ih
        rcases List.mem_cons.mp member with rfl | member
        next => exact ⟨_, List.mem_cons_self, List.mem_cons_self⟩
        next =>
          obtain ⟨part, among, inside⟩ := ih member
          rcases List.mem_cons.mp among with rfl | among
          next => exact ⟨_, List.mem_cons_self, List.mem_cons_of_mem _ inside⟩
          next => exact ⟨part, List.mem_cons_of_mem _ among, inside⟩

theorem backslash_not_mem_of_follow {place place' : List Node} {names : List String}
    (plain : ∀ node ∈ place, node.isPlain = true) (found : follow place names = .ok place') :
    ∀ name ∈ names, '\\' ∉ name.toList := by
  fun_induction follow place names with
  | case1 => simp
  | case2 name rest dots ih =>
    refine List.forall_mem_cons.mpr ⟨?_, ih plain found⟩
    rcases (by simpa using dots : (name = "" ∨ name = ".") ∨ name = "..") with (rfl | rfl) | rfl <;> decide
  | case3 => cases found
  | case4 => cases found
  | case5 entries outer name rest here ih =>
    refine List.forall_mem_cons.mpr ⟨?_, ih plain found⟩
    rcases (by simpa using here : name = "" ∨ name = ".") with rfl | rfl <;> decide
  | case6 entries outer rest _ ih =>
    exact List.forall_mem_cons.mpr ⟨by decide, ih (fun node member => plain node (List.mem_cons_of_mem _ member)) found⟩
  | case7 entries outer rest name _ _ node entry ih =>
    have inside := plain _ List.mem_cons_self
    rw [Node.isPlain] at inside
    obtain ⟨proper, inner⟩ := isPlain_of_lookup inside entry
    exact List.forall_mem_cons.mpr ⟨proper.backslash, ih (List.forall_mem_cons.mpr ⟨inner, plain⟩) found⟩
  | case8 => cases found

theorem walk_of_backslash {w : Workspace} (plain : w.isPlain = true) {directory : String}
    (backslash : '\\' ∈ directory.toList) : w.walk directory = [] := by
  rw [List.eq_nil_iff_forall_not_mem]
  intro file member
  obtain ⟨entries, outer, _, found, _, _⟩ := mem_walk_iff.mp member
  have kept : '\\' ∈ directory.toList.dropWhile (· = '/') := by
    rw [← List.takeWhile_append_dropWhile (p := (· = '/')) (l := directory.toList), List.mem_append] at backslash
    refine backslash.resolve_left fun early => ?_
    simpa using List.mem_takeWhile_imp early
  obtain ⟨part, among, inside⟩ := exists_part_of_mem kept (by decide : '\\' ≠ '/')
  have clean := backslash_not_mem_of_follow (isPlain_of_mem_root plain) found (String.ofList part)
    (List.mem_map_of_mem among)
  rw [String.toList_ofList] at clean
  exact clean inside

def expandFrom (w : Workspace) (directory pattern : String) : List String :=
  match Glob.parse (String.ofList (fromRoot pattern.toList)) with
  | .error _ => []
  | .ok glob => (w.walk directory).filter glob.accepts

theorem expand_eq_expandFrom (w : Workspace) (pattern : String) :
    w.expand pattern = w.expandFrom (String.ofList (startOf pattern)) pattern := rfl

theorem mem_expandFrom_iff {w : Workspace} {directory pattern file : String} : file ∈ w.expandFrom directory pattern ↔
    ∃ glob, Glob.parse (String.ofList (fromRoot pattern.toList)) = .ok glob ∧ glob.accepts file = true ∧
      file ∈ w.walk directory := by
  unfold expandFrom
  cases Glob.parse (String.ofList (fromRoot pattern.toList)) <;> simp [and_comm]

theorem expandFrom_sublist (w : Workspace) (directory pattern : String) :
    (w.expandFrom directory pattern).Sublist (w.walk directory) := by
  unfold expandFrom
  split
  next => exact List.nil_sublist _
  next => exact List.filter_sublist

theorem pairwise_expandFrom (w : Workspace) (directory pattern : String) :
    (w.expandFrom directory pattern).Pairwise (· ≤ ·) :=
  (w.pairwise_walk directory).sublist (w.expandFrom_sublist directory pattern)

section
variable {w : Workspace} (plain : w.isPlain = true) (distinct : w.isDistinct = true) {pattern : String}
include plain distinct

theorem mem_expand_iff_of_normal (clean : '\\' ∉ startOf pattern) {file : String}
    (normal : normalise file [] = file) : file ∈ w.expand pattern ↔ file ∈ w.expandFrom "" pattern := by
  rw [expand_eq_expandFrom, mem_expandFrom_iff, mem_expandFrom_iff]
  refine exists_congr fun glob => and_congr_right fun parsed => and_congr_right fun accepted => ?_
  obtain ⟨more, below⟩ := below_startOf_of_accepts clean parsed accepted
  obtain ⟨names, proper, spelled⟩ := normalise_eq_self_iff.mp normal
  by_cases root : names = []
  next =>
    -- the pattern names no directory if the path is a single slash
    have single : ['/'] = startOf pattern ++ '/' :: more := by
      rw [← below, spelled, root]
      rfl
    have start : startOf pattern = [] := by
      rcases List.append_eq_singleton_iff.mp single.symm with ⟨none, _⟩ | ⟨_, none⟩
      next => exact none
      next => cases none
    rw [start, String.ofList_nil]
  next =>
    rw [ofSegments_eq_trail root] at spelled
    obtain ⟨outer, inner, filled, rfl, start⟩ :=
      eq_trail_of_below (fun name member => (proper name member).slash) (spelled.symm.trans below)
    obtain ⟨properOuter, properInner⟩ := List.forall_mem_append.mp proper
    rw [start, mem_walk_root_iff plain distinct, and_iff_left normal,
      mem_walk_iff_of_spells plain distinct (spells_trail properOuter), and_iff_left_iff_imp]
    exact fun _ => ⟨inner, filled, properInner, spelled⟩

theorem expand_of_clean_start (clean : '\\' ∉ startOf pattern) :
    (w.expand pattern).filter (fun file => normalise file [] = file) = w.expandFrom "" pattern := by
  have unique (directory : String) : (w.expandFrom directory pattern).Nodup :=
    (nodup_walk plain distinct directory).sublist (w.expandFrom_sublist directory pattern)
  refine eq_of_mem_iff ((w.pairwise_expandFrom _ pattern).filter _) (w.pairwise_expandFrom "" pattern)
    ((unique _).filter _) (unique "") fun file => ?_
  rw [List.mem_filter, decide_eq_true_eq]
  constructor
  next =>
    rintro ⟨member, normal⟩
    exact (mem_expand_iff_of_normal plain distinct clean normal).mp member
  next =>
    intro member
    obtain ⟨_, _, _, walked⟩ := mem_expandFrom_iff.mp member
    have normal := ((mem_walk_root_iff plain distinct).mp walked).2
    exact ⟨(mem_expand_iff_of_normal plain distinct clean normal).mpr member, normal⟩

theorem expand_of_plain_start (normal : Session.IsPlainDirectory (String.ofList (startOf pattern))) :
    w.expand pattern = w.expandFrom "" pattern := by
  obtain ⟨outer, spells, form⟩ := normal.spells
  have clean : '\\' ∉ (String.ofList (startOf pattern)).toList := by
    rcases form with ⟨_, root | root⟩ | ⟨_, spelled⟩
    next =>
      rw [root]
      decide
    next =>
      rw [root]
      decide
    next =>
      rw [spelled]
      exact backslash_not_mem_trail spells.proper
  rw [String.toList_ofList] at clean
  rw [← expand_of_clean_start plain distinct clean, eq_comm, List.filter_eq_self]
  intro file member
  rw [expand_eq_expandFrom, mem_expandFrom_iff] at member
  obtain ⟨_, _, _, walked⟩ := member
  obtain ⟨inner, filled, proper, spelled⟩ := mem_walk plain spells walked
  rw [← ofSegments_eq_trail (by simp [filled])] at spelled
  exact decide_eq_true (normalise_eq_self_iff.mpr ⟨outer ++ inner, proper, spelled⟩)

end

theorem expand_subset_of_plain_start {w : Workspace} {pattern : String}
    (normal : Session.IsPlainDirectory (String.ofList (startOf pattern))) :
    w.expand pattern ⊆ w.expandFrom "" pattern := by
  obtain ⟨outer, spells, _⟩ := normal.spells
  intro file member
  rw [expand_eq_expandFrom, mem_expandFrom_iff] at member
  obtain ⟨glob, parsed, accepted, walked⟩ := member
  obtain ⟨entries, place, path, found, inside, spelled⟩ := mem_walk_iff.mp walked
  rw [spells.find] at found
  rw [spells.spelled, ← Node.files, ← List.nil_append (trail outer)] at inside
  have whole := files_of_follow spells.proper found inside
  rw [root, Node.files] at whole
  exact mem_expandFrom_iff.mpr ⟨glob, parsed, accepted, mem_walk_iff.mpr ⟨w.entries, [], path, rfl, whole, spelled⟩⟩

theorem expand_of_backslash {w : Workspace} (plain : w.isPlain = true) {pattern : String}
    (backslash : '\\' ∈ startOf pattern) : w.expand pattern = [] := by
  have none := w.expandFrom_sublist (String.ofList (startOf pattern)) pattern
  rw [walk_of_backslash plain (by rwa [String.toList_ofList])] at none
  exact List.sublist_nil.mp none

/-- A pattern is expanded to a sorted list. If its directory is a normal path, the list has no file that the pattern
does not match, and where no name has a backslash it has all of them, as a walk of the whole workspace would find them.
From any other directory the same files are found by their normal paths, and others may be found by paths through that
directory. From a directory with a backslash nothing is found. -/
theorem expansion_from_literal_directory (w : Workspace) (pattern : String) :
    (w.expand pattern).Pairwise (· ≤ ·) ∧
    (Session.IsPlainDirectory (String.ofList (startOf pattern)) → w.expand pattern ⊆ w.expandFrom "" pattern) ∧
    (w.isPlain = true → w.isDistinct = true →
      ((w.walk "").Nodup ∧ ∀ file, file ∈ w.walk "" ↔ w.hasFile file = true ∧ normalise file [] = file) ∧
      (Session.IsPlainDirectory (String.ofList (startOf pattern)) → w.expand pattern = w.expandFrom "" pattern) ∧
      ('\\' ∉ startOf pattern →
        (w.expand pattern).filter (fun file => normalise file [] = file) = w.expandFrom "" pattern) ∧
      ('\\' ∈ startOf pattern → w.expand pattern = [])) := by
  refine ⟨w.pairwise_expandFrom _ pattern, expand_subset_of_plain_start, fun plain distinct => ⟨⟨?_, ?_⟩, ?_, ?_, ?_⟩⟩
  next => exact nodup_walk plain distinct ""
  next => exact fun file => mem_walk_root_iff plain distinct
  next => exact expand_of_plain_start plain distinct
  next => exact expand_of_clean_start plain distinct
  next => exact expand_of_backslash plain

theorem expansion_beside_another_directory :
    let w := (empty.write "src/A.js" (.text "")).write "lib/B.js" (.text "")
    w.isPlain = true ∧ w.isDistinct = true ∧ w.expand "/src/*.js" = ["/src/A.js"] ∧
      w.expandFrom "" "/src/*.js" = ["/src/A.js"] := by
  intro w
  have plain : w.isPlain = true := by decide +kernel
  have distinct : w.isDistinct = true := by decide +kernel
  have found : w.expand "/src/*.js" = ["/src/A.js"] := by decide +kernel
  obtain ⟨_, _, complete⟩ := expansion_from_literal_directory w "/src/*.js"
  obtain ⟨_, whole, _⟩ := complete plain distinct
  exact ⟨plain, distinct, found, (whole (.inr (by decide +kernel))).symm.trans found⟩

/-- An escape in the directory of a pattern hides files, dots in it add paths that no walk of the whole workspace
finds, and a file with a backslash in its name is shown below a directory that it is not in. -/
theorem expansion_differs_from_whole_walk :
    let escaped := empty.write "src/A.js" (.text "")
    let dotted := (empty.makeDirectory "src").write "lib/A.js" (.text "")
    let shown := empty.write "a\\b.js" (.text "")
    (escaped.expand "/s\\rc/*.js" = [] ∧ escaped.expandFrom "" "/s\\rc/*.js" = ["/src/A.js"]) ∧
    (dotted.expand "/src/../lib/*.js" = ["/src/../lib/A.js"] ∧ dotted.expandFrom "" "/src/../lib/*.js" = []) ∧
    (shown.expand "/a/*.js" = [] ∧ shown.expandFrom "" "/a/*.js" = ["/a/b.js"]) := by
  decide +kernel

end ClassLinker.Workspace
