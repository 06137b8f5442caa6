import ClassLinker.Proofs.Walks

set_option autoImplicit false

namespace ClassLinker

namespace Workspace

open WebPath

def fileIn : List (String × Node) → List String → Option Contents
  | _, [] => none
  | entries, [name] =>
    match entries.lookup name with
    | some (.file contents) => some contents
    | _ => none
  | entries, name :: next :: rest =>
    match entries.lookup name with
    | some (.directory inner) => fileIn inner (next :: rest)
    | _ => none

def fileOf? : Except Fault (List Node) → Option Contents
  | .ok (.file contents :: _) => some contents
  | _ => none

def contentsAt (w : Workspace) (path : String) : Option Contents := fileOf? (w.find path)

def textOf? : Contents → Option String
  | .text s => some s
  | .binary => none

theorem hasFile_eq (w : Workspace) (path : String) : w.hasFile path = (w.contentsAt path).isSome := by
  unfold hasFile contentsAt
  rcases w.find path with fault | _ | ⟨_ | _, _⟩ <;> rfl

theorem toOption_read (w : Workspace) (path : String) :
    (w.read path).toOption = (w.contentsAt path).bind textOf? := by
  unfold read contentsAt
  rcases w.find path with fault | _ | ⟨⟨_ | _⟩ | _, _⟩ <;> rfl

theorem fileIn_follow {names : List (List Char)} (proper : ∀ name ∈ names, IsName name) (filled : names ≠ [])
    (entries : List (String × Node)) (outer : List Node) :
    fileOf? (follow (.directory entries :: outer) (names.map String.ofList)) =
      fileIn entries (names.map String.ofList) := by
  induction names generalizing entries outer with
  | nil => exact absurd rfl filled
  | cons name names ih =>
    obtain ⟨first, others⟩ := List.forall_mem_cons.mp proper
    rw [List.map_cons, follow_name first]
    cases names with
    | nil =>
      cases entry : entries.lookup (String.ofList name) with
      | none => simp [fileIn, entry, fileOf?]
      | some node => cases node <;> simp [fileIn, entry, follow, fileOf?]
    | cons next names =>
      cases entry : entries.lookup (String.ofList name) with
      | none => simp [fileIn, entry, fileOf?]
      | some node =>
        cases node with
        | file contents => simp [fileIn, entry, follow, fileOf?]
        | directory inner => simpa [fileIn, entry] using ih others (by simp) inner (.directory entries :: outer)

structure Names (path : String) (names : List (List Char)) : Prop where
  proper : ∀ name ∈ names, IsName name
  filled : names ≠ []
  spelled : path.toList = trail names

theorem names_of_normal {path : String} (normal : normalise path [] = path) (inner : path ≠ "/") :
    ∃ names, Names path names := by
  obtain ⟨names, proper, spelled⟩ := normalise_eq_self_iff.mp normal
  have filled : names ≠ [] := by
    rintro rfl
    exact inner (String.toList_inj.mp spelled)
  exact ⟨names, proper, filled, by rw [spelled, ofSegments_eq_trail filled]⟩

section
variable {path : String} {names : List (List Char)} (spells : Names path names)
include spells

theorem Names.contentsAt (w : Workspace) : w.contentsAt path = fileIn w.entries (names.map String.ofList) := by
  rw [← fileIn_follow spells.proper spells.filled w.entries [], Workspace.contentsAt, find,
    components_of_trail spells.proper spells.filled spells.spelled]
  rfl

theorem Names.plainComponents : plainComponents path = names.map String.ofList := by
  rw [Workspace.plainComponents, components_of_trail spells.proper spells.filled spells.spelled,
    List.filter_eq_self]
  intro component member
  obtain ⟨name, inside, rfl⟩ := List.mem_map.mp member
  obtain ⟨filled, here, -⟩ := ofList_isName (spells.proper name inside)
  simp [filled, here]

theorem Names.inj {path' : String} {names' : List (List Char)} (spells' : Names path' names')
    (same : names.map String.ofList = names'.map String.ofList) : path = path' := by
  have same : names = names' := List.map_injective_iff.mpr (fun a b h => by simpa using congrArg String.toList h) same
  rw [← String.toList_inj, spells.spelled, spells'.spelled, same]

end

theorem lookup_setEntry_self (name : String) (node : Node) (entries : List (String × Node)) :
    (setEntry name node entries).lookup name = some node := by
  induction entries with
  | nil => simp [setEntry]
  | cons first rest ih =>
    obtain ⟨key, old⟩ := first
    rw [setEntry]
    split
    next same => simp [same]
    next other => rw [List.lookup_cons, beq_false_of_ne (Ne.symm other), ih]

theorem lookup_filter_of_ne {name key : String} (other : key ≠ name) (entries : List (String × Node)) :
    (entries.filter fun (key, _) => key ≠ name).lookup key = entries.lookup key := by
  induction entries with
  | nil => rfl
  | cons first rest ih =>
    obtain ⟨own, node⟩ := first
    by_cases same : own = name
    next =>
      have differs : (key == own) = false := beq_false_of_ne (same ▸ other)
      rw [List.filter_cons_of_neg (by simp [same]), ih, List.lookup_cons, differs]
    next => rw [List.filter_cons_of_pos (by simp [same]), List.lookup_cons, List.lookup_cons, ih]

theorem lookup_filter_self (name : String) (entries : List (String × Node)) :
    (entries.filter fun (key, _) => key ≠ name).lookup name = none := by
  rw [List.lookup_eq_none_iff]
  intro entry member
  have other : entry.1 ≠ name := by simpa using (List.mem_filter.mp member).2
  simpa using other.symm

/-- Whether a file can be put where names lead to: there is no directory there, and no file on the way. -/
def isFree : List (String × Node) → List String → Bool
  | _, [] => false
  | entries, [name] =>
    match entries.lookup name with
    | some (.directory _) => false
    | _ => true
  | entries, name :: next :: rest =>
    match entries.lookup name with
    | some (.directory inner) => isFree inner (next :: rest)
    | some (.file _) => false
    | none => true

theorem isFree_nil (name : String) (rest : List String) : isFree [] (name :: rest) = true := by
  cases rest <;> rfl

theorem fileIn_nil (names : List String) : fileIn [] names = none := by
  rcases names with _ | ⟨name, _ | ⟨next, rest⟩⟩ <;> rfl

theorem fileIn_of_lookup_ne {entries entries' : List (String × Node)} {key : String}
    (same : entries'.lookup key = entries.lookup key) (rest : List String) :
    fileIn entries' (key :: rest) = fileIn entries (key :: rest) := by
  cases rest <;> simp [fileIn, same]

theorem isFree_of_fileIn {entries : List (String × Node)} {names : List String}
    (present : (fileIn entries names).isSome = true) : isFree entries names = true := by
  fun_induction fileIn entries names with
  | case1 => cases present
  | case2 entries name contents entry => simp [isFree, entry]
  | case3 => cases present
  | case4 entries name next rest inner entry ih => simpa [isFree, entry] using ih present
  | case5 => cases present

theorem fileIn_setEntry_file {name : String} {entries : List (String × Node)} (contents : Contents)
    (free : isFree entries [name] = true) (others : List String) :
    fileIn (setEntry name (.file contents) entries) others =
      if others = [name] then some contents else fileIn entries others := by
  rcases others with _ | ⟨key, rest⟩
  next => rfl
  next =>
    by_cases same : key = name
    next =>
      subst same
      cases rest with
      | nil => simp [fileIn, lookup_setEntry_self]
      | cons next rest =>
        have none : fileIn entries (key :: next :: rest) = none := by
          rw [isFree] at free
          rw [fileIn]
          cases entry : entries.lookup key with
          | none => rfl
          | some node => cases node <;> simp_all
        rw [none]
        simp [fileIn, lookup_setEntry_self]
    next => simp [fileIn_of_lookup_ne (lookup_setEntry_of_ne same _ _), same]

theorem fileIn_setEntry_directory {name : String} {entries inner : List (String × Node)}
    (noFile : ∀ contents, entries.lookup name ≠ some (.file contents)) (others : List String) :
    fileIn (setEntry name (.directory inner) entries) others =
      if others.head? = some name then fileIn inner others.tail else fileIn entries others := by
  rcases others with _ | ⟨key, rest⟩
  next => rfl
  next =>
    by_cases same : key = name
    next =>
      subst same
      cases rest with
      | nil => simp [fileIn, lookup_setEntry_self]
      | cons next rest => simp [fileIn, lookup_setEntry_self]
    next => simp [fileIn_of_lookup_ne (lookup_setEntry_of_ne same _ _), same]

theorem fileIn_put {names : List String} {entries : List (String × Node)} (contents : Contents)
    (free : isFree entries names = true) (others : List String) :
    fileIn (put (.file contents) names entries) others =
      if others = names then some contents else fileIn entries others := by
  fun_induction put (.file contents) names entries generalizing others with
  | case1 => cases free
  | case2 name entries => exact fileIn_setEntry_file contents free others
  | case3 name rest entries filled inner entry ih =>
    obtain ⟨next, more, rfl⟩ := List.exists_cons_of_ne_nil filled
    rw [isFree, entry] at free
    rw [fileIn_setEntry_directory (by simp [entry]) others]
    rcases others with _ | ⟨key, others⟩
    next => rfl
    next =>
      by_cases same : key = name
      next =>
        subst same
        cases others <;> simp [ih free, fileIn, entry]
      next => simp [same]
  | case4 name rest entries filled missing ih =>
    obtain ⟨next, more, rfl⟩ := List.exists_cons_of_ne_nil filled
    have absent : entries.lookup name = none := by
      rw [isFree] at free
      cases entry : entries.lookup name with
      | none => rfl
      | some node => cases node <;> simp_all
    rw [fileIn_setEntry_directory (by simp [absent]) others]
    rcases others with _ | ⟨key, others⟩
    next => rfl
    next =>
      by_cases same : key = name
      next =>
        subst same
        cases others <;> simp [ih (isFree_nil next more), fileIn, absent, fileIn_nil]
      next => simp [same]

theorem fileIn_drop {names : List String} {entries : List (String × Node)}
    (present : (fileIn entries names).isSome = true) (others : List String) :
    fileIn (drop names entries) others = if others = names then none else fileIn entries others := by
  fun_induction drop names entries generalizing others with
  | case1 => cases present
  | case2 name entries =>
    rcases others with _ | ⟨key, rest⟩
    next => rfl
    next =>
      by_cases same : key = name
      next =>
        subst same
        cases rest with
        | nil => rw [fileIn, lookup_filter_self, if_pos rfl]
        | cons next rest =>
          rw [fileIn] at present
          rw [fileIn, fileIn, lookup_filter_self]
          cases entry : entries.lookup key with
          | none => simp
          | some node => cases node <;> simp_all
      next => rw [fileIn_of_lookup_ne (lookup_filter_of_ne same _), if_neg (by simp [same])]
  | case3 name rest entries filled inner entry ih =>
    obtain ⟨next, more, rfl⟩ := List.exists_cons_of_ne_nil filled
    rw [fileIn, entry] at present
    rw [fileIn_setEntry_directory (by simp [entry]) others]
    rcases others with _ | ⟨key, others⟩
    next => rfl
    next =>
      by_cases same : key = name
      next =>
        subst same
        cases others <;> simp [ih present, fileIn, entry]
      next => simp [same]
  | case4 name rest entries filled missing =>
    obtain ⟨next, more, rfl⟩ := List.exists_cons_of_ne_nil filled
    rw [fileIn] at present
    cases entry : entries.lookup name with
    | none => simp [entry] at present
    | some node => cases node <;> simp_all

theorem arePlain_setEntry {name : String} {node : Node} {entries : List (String × Node)}
    (plain : arePlain entries = true) (proper : IsName name.toList) (inner : node.isPlain = true) :
    arePlain (setEntry name node entries) = true := by
  induction entries with
  | nil => simp [setEntry, arePlain, proper, inner]
  | cons first rest ih =>
    obtain ⟨key, old⟩ := first
    simp only [arePlain, Bool.and_eq_true, decide_eq_true_eq] at plain
    rw [setEntry]
    split
    next => simp [arePlain, plain.1.1, plain.2, inner]
    next => simp [arePlain, plain.1.1, plain.1.2, ih plain.2]

theorem arePlain_put {node : Node} (inner : node.isPlain = true) {names : List String}
    (proper : ∀ name ∈ names, IsName name.toList) {entries : List (String × Node)} (plain : arePlain entries = true) :
    arePlain (put node names entries) = true := by
  fun_induction put node names entries with
  | case1 => exact plain
  | case2 name entries => exact arePlain_setEntry plain (proper name (by simp)) inner
  | case3 name rest entries _ inside entry ih =>
    have below := (isPlain_of_lookup plain entry).2
    rw [Node.isPlain] at below
    exact arePlain_setEntry plain (proper name (by simp))
      (ih (fun other member => proper other (List.mem_cons_of_mem _ member)) below)
  | case4 name rest entries _ _ ih =>
    exact arePlain_setEntry plain (proper name (by simp))
      (ih (fun other member => proper other (List.mem_cons_of_mem _ member)) rfl)

theorem arePlain_filter {entries : List (String × Node)} (plain : arePlain entries = true)
    (keep : String × Node → Bool) : arePlain (entries.filter keep) = true := by
  induction entries with
  | nil => rfl
  | cons first rest ih =>
    obtain ⟨key, node⟩ := first
    simp only [arePlain, Bool.and_eq_true] at plain
    rw [List.filter_cons]
    split
    next => simp only [arePlain, plain.1.1, plain.1.2, ih plain.2, Bool.and_self]
    next => exact ih plain.2

theorem arePlain_drop {names : List String} (proper : ∀ name ∈ names, IsName name.toList)
    {entries : List (String × Node)} (plain : arePlain entries = true) : arePlain (drop names entries) = true := by
  fun_induction drop names entries with
  | case1 => exact plain
  | case2 name entries => exact arePlain_filter plain _
  | case3 name rest entries _ inside entry ih =>
    have below := (isPlain_of_lookup plain entry).2
    rw [Node.isPlain] at below
    exact arePlain_setEntry plain (proper name (by simp))
      (ih (fun other member => proper other (List.mem_cons_of_mem _ member)) below)
  | case4 => exact plain

/-- Two workspaces that differ in one file at most. -/
structure DiffersAt (file : String) (w w' : Workspace) : Prop where
  plain : w.isPlain = true ∧ w'.isPlain = true
  distinct : w.isDistinct = true ∧ w'.isDistinct = true
  others : ∀ path, normalise path [] = path → path ≠ file → w'.contentsAt path = w.contentsAt path

section
variable {file : String} {names : List (List Char)} (spells : Names file names)
include spells

theorem Names.isName : ∀ name ∈ names.map String.ofList, IsName name.toList := by
  intro component member
  obtain ⟨name, inside, rfl⟩ := List.mem_map.mp member
  rw [String.toList_ofList]
  exact spells.proper name inside

theorem Names.contentsAt_eq {w w' : Workspace} {contents : Option Contents}
    (edited : ∀ others, fileIn w'.entries others =
      if others = names.map String.ofList then contents else fileIn w.entries others) :
    w'.contentsAt file = contents ∧
      ∀ path, normalise path [] = path → path ≠ file → w'.contentsAt path = w.contentsAt path := by
  refine ⟨by rw [spells.contentsAt, edited, if_pos rfl], fun path normal other => ?_⟩
  by_cases root : path = "/"
  next =>
    subst root
    rfl
  next =>
    obtain ⟨names', spells'⟩ := names_of_normal normal root
    have differ : names'.map String.ofList ≠ names.map String.ofList := fun equal => other (spells'.inj spells equal)
    rw [spells'.contentsAt, spells'.contentsAt, edited, if_neg differ]

variable {w : Workspace} (plain : w.isPlain = true) (distinct : w.isDistinct = true)
include plain distinct

theorem Names.write (free : isFree w.entries (names.map String.ofList) = true) (contents : Contents) :
    DiffersAt file w (w.write file contents) ∧ (w.write file contents).contentsAt file = some contents := by
  have entries : (w.write file contents).entries = put (.file contents) (names.map String.ofList) w.entries := by
    rw [Workspace.write, spells.plainComponents]
  have edited : ∀ others, fileIn (w.write file contents).entries others =
      if others = names.map String.ofList then some contents else fileIn w.entries others := by
    rw [entries]
    exact fileIn_put contents free
  have plain' : (w.write file contents).isPlain = true := by
    rw [isPlain, entries]
    exact arePlain_put rfl spells.isName plain
  obtain ⟨own, others⟩ := spells.contentsAt_eq edited
  exact ⟨⟨⟨plain, plain'⟩, ⟨distinct, isDistinct_write distinct file contents⟩, others⟩, own⟩

theorem Names.remove (present : w.hasFile file = true) :
    DiffersAt file w (w.remove file) ∧ (w.remove file).contentsAt file = none := by
  have entries : (w.remove file).entries = drop (names.map String.ofList) w.entries := by
    rw [Workspace.remove, spells.plainComponents]
  rw [hasFile_eq, spells.contentsAt] at present
  have edited : ∀ others, fileIn (w.remove file).entries others =
      if others = names.map String.ofList then none else fileIn w.entries others := by
    rw [entries]
    exact fileIn_drop present
  have plain' : (w.remove file).isPlain = true := by
    rw [isPlain, entries]
    exact arePlain_drop spells.isName plain
  obtain ⟨own, others⟩ := spells.contentsAt_eq edited
  exact ⟨⟨⟨plain, plain'⟩, ⟨distinct, isDistinct_remove distinct file⟩, others⟩, own⟩

end

section
variable {w w' : Workspace} {file : String} (differs : DiffersAt file w w')
include differs

theorem DiffersAt.mem_walk_iff {directory path : String} {outer : List (List Char)} (spells : Spells directory outer)
    (other : path ≠ file) : path ∈ w'.walk directory ↔ path ∈ w.walk directory := by
  rw [mem_walk_iff_of_spells differs.plain.1 differs.distinct.1 spells,
    mem_walk_iff_of_spells differs.plain.2 differs.distinct.2 spells]
  refine and_congr_left fun ⟨inner, filled, proper, spelled⟩ => ?_
  have normal : normalise path [] = path := normalise_eq_self_iff.mpr
    ⟨outer ++ inner, List.forall_mem_append.mpr ⟨spells.proper, proper⟩,
      by rw [spelled, ofSegments_eq_trail (by simp [filled])]⟩
  rw [hasFile_eq, hasFile_eq, differs.others path normal other]

theorem DiffersAt.mem_expand_iff {pattern path : String} (plain : Session.IsPlainPattern pattern)
    (other : path ≠ file) : path ∈ w'.expand pattern ↔ path ∈ w.expand pattern := by
  obtain ⟨outer, spells, -⟩ := plain.spells
  unfold expand
  simp only [plain.slashed]
  split
  next => exact Iff.rfl
  next => rw [List.mem_filter, List.mem_filter, differs.mem_walk_iff spells other]

end

end Workspace

namespace Sources

variable {sources : Sources} {path : String}

theorem classesAt_eq_nil (absent : ∀ x ∈ sources, x.1 ≠ path) : Sources.classesAt sources path = [] := by
  rw [List.eq_nil_iff_forall_not_mem]
  intro d member
  exact absent _ (mem_of_classesAt member) rfl

theorem classesAt_eq_of_mem {classes : List Descriptor} (member : (path, classes) ∈ sources)
    (alone : ∀ x ∈ sources, x.1 = path → x.2 = classes) : Sources.classesAt sources path = classes := by
  unfold Sources.classesAt
  cases found : sources.reverse.lookup path with
  | none =>
    rw [List.lookup_eq_none_iff] at found
    exact absurd (found _ (List.mem_reverse.mpr member)) (by simp)
  | some other =>
    rw [List.lookup_eq_some_iff] at found
    obtain ⟨before, after, split, _⟩ := found
    have inside : (path, other) ∈ sources := by
      rw [← List.mem_reverse, split]
      simp
    exact alone _ inside rfl

end Sources

namespace Session

open Workspace WebPath

theorem classesOf_congr (s : Session) {w w' : Workspace} {file : String}
    (same : w'.contentsAt file = w.contentsAt file) : s.classesOf w' file = s.classesOf w file := by
  have eq (w : Workspace) : s.classesOf w file =
      (w.read file).toOption.bind fun source => (s.analyse (s.pathOf file) source).toOption.map
        fun a => a.classes.map (·.descriptor) := by
    unfold classesOf
    cases w.read file with
    | error fault => rfl
    | ok source =>
      change _ = (s.analyse (s.pathOf file) source).toOption.map fun a => a.classes.map (·.descriptor)
      simp only
      cases s.analyse (s.pathOf file) source with
      | error problem => rfl
      | ok a => rfl
  rw [eq, eq, toOption_read, toOption_read, same]

def found (s : Session) (w : Workspace) (file : String) : Option (String × List Descriptor) :=
  (s.classesOf w file).map (s.pathOf file, ·)

theorem search_eq (s : Session) (w : Workspace) : s.search w = (s.examined w).filterMap (s.found w) := by
  rw [search, examined, List.filterMap_filter]
  refine List.filterMap_congr fun file _ => ?_
  rw [source?, found]
  cases s.isExcluded file <;> rfl

theorem mem_search_iff {s : Session} {w : Workspace} {source : String × List Descriptor} :
    source ∈ s.search w ↔ ∃ file ∈ s.examined w, s.pathOf file = source.1 ∧ s.classesOf w file = some source.2 := by
  rw [search_eq, List.mem_filterMap]
  refine exists_congr fun file => and_congr_right fun _ => ?_
  rw [found, Option.map_eq_some_iff]
  constructor
  next =>
    rintro ⟨classes, known, rfl⟩
    exact ⟨rfl, known⟩
  next => exact fun ⟨path, known⟩ => ⟨source.2, known, Prod.ext path rfl⟩

def finds (s : Session) (w : Workspace) (path : String) : List Descriptor := Sources.classesAt (s.search w) path

section
variable {s : Session} {w w' : Workspace} {file : String} (settings : s.IsPlain) (differs : DiffersAt file w w')
include settings differs

theorem mem_candidates_of_ne {other : String} (differ : other ≠ file) :
    other ∈ s.candidates w' ↔ other ∈ s.candidates w := by
  rw [mem_candidates, mem_candidates]
  refine or_congr (exists_congr fun x => and_congr_right fun mapped => ?_)
    (exists_congr fun pattern => and_congr_right fun listed => ?_)
  next =>
    obtain ⟨outer, spells, -⟩ := (settings.directories x mapped).spells
    rw [differs.mem_walk_iff spells differ]
  next => rw [differs.mem_expand_iff (settings.patterns pattern listed) differ]

theorem examined_of_others : (s.examined w').filter (· ≠ file) = (s.examined w).filter (· ≠ file) := by
  have sorted (w : Workspace) : ((s.examined w).filter (· ≠ file)).Pairwise (· < ·) :=
    ((sortedUnique_pairwise _).filter _).filter _
  have unique (w : Workspace) : ((s.examined w).filter (· ≠ file)).Nodup :=
    (sorted w).imp fun {a b} (less : a < b) (same : a = b) => String.lt_irrefl b (same ▸ less)
  refine eq_of_mem_iff ((sorted w').imp String.lt_asymm) ((sorted w).imp String.lt_asymm) (unique w') (unique w) ?_
  intro other
  simp only [examined, List.mem_filter, decide_eq_true_eq]
  exact and_congr_left fun differ => and_congr_left fun _ => mem_candidates_of_ne settings differs differ

theorem found_of_others {other : String} (member : other ∈ s.examined w) (differ : other ≠ file) :
    s.found w' other = s.found w other := by
  have normal := normal_of_mem_candidates differs.plain.1 settings (List.mem_filter.mp member).1
  rw [found, found, s.classesOf_congr (differs.others other normal differ)]

theorem search_of_others : (s.search w').filter (·.1 ≠ s.pathOf file) = (s.search w).filter (·.1 ≠ s.pathOf file) := by
  -- whatever the file itself gives is left out by the filter
  have without (w : Workspace) : (s.search w).filter (·.1 ≠ s.pathOf file) =
      ((s.examined w).filter (· ≠ file)).filterMap fun other => (s.found w other).filter (·.1 ≠ s.pathOf file) := by
    rw [search_eq, List.filter_filterMap, List.filterMap_filter]
    refine List.filterMap_congr fun other _ => ?_
    by_cases same : other = file
    next =>
      subst same
      cases known : s.classesOf w other <;> simp [found, known]
    next => simp [same]
  rw [without, without, examined_of_others settings differs]
  refine List.filterMap_congr fun other member => ?_
  obtain ⟨member, differ⟩ := List.mem_filter.mp member
  rw [found_of_others settings differs member (by simpa using differ)]

theorem search_of_unread (before : file ∉ s.examined w) (after : file ∉ s.examined w') : s.search w' = s.search w := by
  have all {w : Workspace} (unread : file ∉ s.examined w) : (s.examined w).filter (· ≠ file) = s.examined w := by
    rw [List.filter_eq_self]
    intro other member
    exact decide_eq_true fun same => unread (same ▸ member)
  have same := examined_of_others settings differs
  rw [all before, all after] at same
  rw [search_eq, search_eq, same]
  exact List.filterMap_congr fun other member =>
    found_of_others settings differs member fun equal => before (equal ▸ member)

theorem finds_of_others {path : String} (other : path ≠ s.pathOf file) : s.finds w' path = s.finds w path := by
  unfold finds
  rw [← Sources.classesAt_filter _ other, search_of_others settings differs, Sources.classesAt_filter _ other]

end

/-- No other file that a search reads has the path of this one. -/
def Alone (s : Session) (w : Workspace) (file : String) : Prop :=
  ∀ other ∈ s.examined w, s.pathOf other = s.pathOf file → other = file

instance (s : Session) (w : Workspace) (file : String) : Decidable (s.Alone w file) :=
  inferInstanceAs (Decidable (∀ other ∈ s.examined w, s.pathOf other = s.pathOf file → other = file))

section
variable {s : Session} {w w' : Workspace} {file : String} (settings : s.IsPlain) (differs : DiffersAt file w w')
  (alone : s.Alone w file)
include settings differs alone

theorem Alone.of_differs : s.Alone w' file := by
  intro other member same
  by_contra differ
  rw [examined, List.mem_filter, mem_candidates_of_ne settings differs differ] at member
  exact differ (alone other (List.mem_filter.mpr member) same)

end

theorem Alone.finds_eq_nil {s : Session} {w : Workspace} {file : String} (alone : s.Alone w file)
    (unread : file ∉ s.examined w) : s.finds w (s.pathOf file) = [] := by
  refine Sources.classesAt_eq_nil fun source member same => ?_
  obtain ⟨other, examined, path, _⟩ := mem_search_iff.mp member
  exact unread (alone other examined (path.trans same) ▸ examined)

theorem Alone.finds_eq {s : Session} {w : Workspace} {file : String} (alone : s.Alone w file)
    (read : file ∈ s.examined w) {classes : List Descriptor} (known : s.classesOf w file = some classes) :
    s.finds w (s.pathOf file) = classes := by
  refine Sources.classesAt_eq_of_mem (mem_search_iff.mpr ⟨file, read, rfl, known⟩) fun source member same => ?_
  obtain ⟨other, examined, path, known'⟩ := mem_search_iff.mp member
  rw [alone other examined (path.trans same), known] at known'
  exact (Option.some.inj known').symm

end Session

end ClassLinker
