import ClassLinker.Proofs.NormalPaths
import ClassLinker.Workspace.Search

set_option autoImplicit false

namespace ClassLinker.Workspace

open WebPath

mutual

def Node.isPlain : Node → Bool
  | .file _ => true
  | .directory entries => arePlain entries

def arePlain : List (String × Node) → Bool
  | [] => true
  | (name, node) :: rest => decide (IsName name.toList) && node.isPlain && arePlain rest

end

def isPlain (w : Workspace) : Bool := arePlain w.entries

mutual

theorem Node.mem_files {base path : List Char} : (node : Node) → node.isPlain = true → path ∈ node.files base →
    ∃ names, (∀ name ∈ names, IsName name) ∧ path = base ++ trail names
  | .file _, _, member => by
    rw [Node.files, List.mem_singleton] at member
    exact ⟨[], by simp, by simp [member]⟩
  | .directory entries, plain, member => by
    rw [Node.isPlain] at plain
    rw [Node.files] at member
    obtain ⟨names, _, proper, spelled⟩ := mem_filesBelow entries plain member
    exact ⟨names, proper, spelled⟩

theorem mem_filesBelow {base path : List Char} :
    (entries : List (String × Node)) → arePlain entries = true → path ∈ filesBelow base entries →
    ∃ names, names ≠ [] ∧ (∀ name ∈ names, IsName name) ∧ path = base ++ trail names
  | [], _, member => by simp [filesBelow] at member
  | (name, node) :: rest, plain, member => by
    simp only [arePlain, Bool.and_eq_true, decide_eq_true_eq] at plain
    obtain ⟨⟨first, inner⟩, others⟩ := plain
    rw [filesBelow, List.mem_append] at member
    rcases member with member | member
    next =>
      obtain ⟨names, proper, spelled⟩ := Node.mem_files node inner member
      exact ⟨name.toList :: names, by simp, List.forall_mem_cons.mpr ⟨first, proper⟩, by simp [spelled]⟩
    next => exact mem_filesBelow rest others member

end

theorem filesBelow_of_mem {base path : List Char} {entries : List (String × Node)} {name : String} {node : Node}
    (entry : (name, node) ∈ entries) (member : path ∈ node.files (base ++ '/' :: name.toList)) :
    path ∈ filesBelow base entries := by
  induction entries with
  | nil => cases entry
  | cons first rest ih =>
    obtain ⟨other, node'⟩ := first
    rw [filesBelow, List.mem_append]
    rcases List.mem_cons.mp entry with same | entry
    next =>
      cases same
      exact .inl member
    next => exact .inr (ih entry)

theorem follow_append (place : List Node) (names more : List String) :
    follow place (names ++ more) = (follow place names).bind fun place => follow place more := by
  fun_induction follow place names <;> simp [follow, Except.bind, *]

theorem isPlain_of_lookup {entries : List (String × Node)} {name : String} {node : Node}
    (plain : arePlain entries = true) (entry : entries.lookup name = some node) :
    IsName name.toList ∧ node.isPlain = true := by
  induction entries with
  | nil => cases entry
  | cons first rest ih =>
    obtain ⟨other, node'⟩ := first
    simp only [arePlain, Bool.and_eq_true, decide_eq_true_eq] at plain
    rw [List.lookup_cons] at entry
    split at entry
    next same =>
      cases entry
      rw [eq_of_beq same]
      exact plain.1
    next => exact ih plain.2 entry

theorem forall_mem_of_follow {holds : Node → Prop} (hereditary : ∀ {entries : List (String × Node)} {name : String}
    {node : Node}, holds (.directory entries) → entries.lookup name = some node → holds node) {place place' : List Node}
    {names : List String} (start : ∀ node ∈ place, holds node) (found : follow place names = .ok place') :
    ∀ node ∈ place', holds node := by
  fun_induction follow place names with
  | case1 place =>
    cases found
    exact start
  | case2 name rest _ ih => exact ih start found
  | case3 => cases found
  | case4 => cases found
  | case5 entries outer name rest _ ih => exact ih start found
  | case6 entries outer rest _ ih =>
    exact ih (fun node member => start node (List.mem_cons_of_mem _ member)) found
  | case7 entries outer rest name _ _ node entry ih =>
    exact ih (List.forall_mem_cons.mpr ⟨hereditary (start _ List.mem_cons_self) entry, start⟩) found
  | case8 => cases found

theorem isPlain_of_mem_root {w : Workspace} (plain : w.isPlain = true) : ∀ node ∈ [w.root], node.isPlain = true := by
  intro node member
  rw [List.mem_singleton.mp member, root, Node.isPlain]
  exact plain

theorem arePlain_of_find {w : Workspace} (plain : w.isPlain = true) {path : String} {entries : List (String × Node)}
    {outer : List Node} (found : w.find path = .ok (.directory entries :: outer)) : arePlain entries = true := by
  have hereditary {entries : List (String × Node)} {name : String} {node : Node}
      (inside : (Node.directory entries).isPlain = true) (entry : entries.lookup name = some node) :
      node.isPlain = true := by
    rw [Node.isPlain] at inside
    exact (isPlain_of_lookup inside entry).2
  have inner := forall_mem_of_follow hereditary (isPlain_of_mem_root plain) found _ List.mem_cons_self
  rwa [Node.isPlain] at inner

theorem ofList_isName {name : List Char} (proper : IsName name) :
    String.ofList name ≠ "" ∧ String.ofList name ≠ "." ∧ String.ofList name ≠ ".." := by
  have differs {other : List Char} (other' : name ≠ other) : String.ofList name ≠ String.ofList other := fun same =>
    other' (by simpa using congrArg String.toList same)
  exact ⟨differs proper.filled, differs proper.here, differs proper.above⟩

theorem follow_name {name : List Char} (proper : IsName name) (entries : List (String × Node)) (outer : List Node)
    (rest : List String) :
    follow (.directory entries :: outer) (String.ofList name :: rest) =
      (entries.lookup (String.ofList name)).elim (.error .missing) fun node =>
        follow (node :: .directory entries :: outer) rest := by
  obtain ⟨filled, here, above⟩ := ofList_isName proper
  rw [follow, if_neg (by simp only [filled, here, decide_false, Bool.or_self, Bool.false_eq_true, not_false_eq_true]),
    if_neg above]
  cases entries.lookup (String.ofList name) <;> rfl

theorem files_of_follow {base path : List Char} {names : List (List Char)} (proper : ∀ name ∈ names, IsName name)
    {node inner : Node} {outer place : List Node}
    (found : follow (node :: outer) (names.map String.ofList) = .ok (inner :: place))
    (member : path ∈ inner.files (base ++ trail names)) : path ∈ node.files base := by
  induction names generalizing base node outer with
  | nil =>
    simp only [List.map_nil, follow, Except.ok.injEq, List.cons.injEq] at found
    simpa [found.1] using member
  | cons name names ih =>
    cases node with
    | file _ => cases found
    | directory entries =>
      rw [List.map_cons, follow_name (proper name List.mem_cons_self)] at found
      cases entry : entries.lookup (String.ofList name) with
      | none =>
        rw [entry] at found
        cases found
      | some next =>
        rw [entry, Option.elim_some] at found
        obtain ⟨before, after, split, _⟩ := List.lookup_eq_some_iff.mp entry
        rw [Node.files]
        apply filesBelow_of_mem (by simp [split] : (String.ofList name, next) ∈ entries)
        rw [String.toList_ofList]
        exact ih (fun other member => proper other (List.mem_cons_of_mem _ member)) found (by simpa using member)

theorem directory_of_follow {place place' : List Node} {names : List (List Char)} (filled : names ≠ [])
    (proper : ∀ name ∈ names, IsName name) (found : follow place (names.map String.ofList) = .ok place') :
    ∃ entries outer, place = .directory entries :: outer := by
  cases names with
  | nil => exact absurd rfl filled
  | cons name names =>
    match place with
    | [] =>
      obtain ⟨filled, here, above⟩ := ofList_isName (proper name List.mem_cons_self)
      rw [List.map_cons, follow, if_neg (by simp only [filled, here, above, decide_false, Bool.or_self,
        Bool.false_eq_true, not_false_eq_true])] at found
      cases found
    | .file _ :: _ => cases found
    | .directory entries :: outer => exact ⟨entries, outer, rfl⟩

theorem getLast?_trail {names : List (List Char)} (proper : ∀ name ∈ names, IsName name) (filled : names ≠ []) :
    (trail names).getLast? ≠ some '/' := by
  induction names using List.reverseRecOn with
  | nil => exact absurd rfl filled
  | append_singleton names name _ =>
    have last := proper name (by simp)
    intro ends
    rw [trail_append, trail_cons, trail_nil, List.append_nil, List.getLast?_append_of_ne_nil _ (by simp),
      List.getLast?_cons_of_ne_nil last.filled] at ends
    exact last.slash (List.mem_of_getLast? ends)

theorem trail_cons_inner {name : List Char} {names : List (List Char)} (proper : IsName name) :
    (name ++ trail names).dropWhile (· = '/') = name ++ trail names ∧
      dropDots (name ++ trail names) = name ++ trail names := by
  cases name with
  | nil => exact absurd rfl proper.filled
  | cons c more =>
    have noSlash : c ≠ '/' := fun same => proper.slash (by simp [same])
    constructor
    next => simp [noSlash]
    next =>
      unfold dropDots
      split
      next split => simp_all
      next split =>
        have := proper.here
        simp_all
      next rest split =>
        -- the dot would be a name of its own, or the name would have a slash
        obtain ⟨rfl, inside⟩ := List.cons.inj split
        cases more with
        | nil => exact absurd rfl proper.here
        | cons d more =>
          obtain ⟨rfl, _⟩ := List.cons.inj inside
          exact absurd (by simp) proper.slash
      next => rfl

theorem spelled_trail {names : List (List Char)} (proper : ∀ name ∈ names, IsName name) :
    spelled (trail names) = trail names := by
  cases names with
  | nil => rfl
  | cons name names =>
    have first := proper name List.mem_cons_self
    have inner : dropDots (trail (name :: names)) = name ++ trail names := (trail_cons_inner first).2
    have filled : name ++ trail names ≠ [] := by simp [first.filled]
    have ends : (name ++ trail names).getLast? ≠ some '/' := by
      rw [← List.getLast?_cons_of_ne_nil filled]
      exact getLast?_trail proper (by simp)
    unfold spelled
    rw [inner]
    split
    next none => exact absurd none filled
    next => rw [if_neg ends, trail_cons, List.cons_append]

theorem components_of_trail {path : String} {names : List (List Char)} (proper : ∀ name ∈ names, IsName name)
    (filled : names ≠ []) (spelled : path.toList = trail names) : components path = names.map String.ofList := by
  cases names with
  | nil => exact absurd rfl filled
  | cons name names =>
    have first := proper name List.mem_cons_self
    have parts : Text.splitOn '/' (name ++ trail names) = name :: names := by
      have whole := splitOn_trail fun other member => (proper other member).slash
      rw [trail_cons] at whole
      simpa [Text.splitOn] using whole
    have inner : path.toList.dropWhile (· = '/') = name ++ trail names := by
      rw [spelled, trail_cons, List.cons_append, List.dropWhile_cons_of_pos (by simp), (trail_cons_inner first).1]
    rw [components, inner, parts]

/-- A directory spelled as the path of its names. -/
structure Spells (directory : String) (names : List (List Char)) : Prop where
  proper : ∀ name ∈ names, IsName name
  spelled : spelled directory.toList = trail names
  find : ∀ w : Workspace, w.find directory = follow [w.root] (names.map String.ofList)

theorem spells_root {directory : String} (root : directory = "" ∨ directory = "/") : Spells directory [] := by
  rcases root with rfl | rfl
  next => exact ⟨by simp, rfl, fun _ => rfl⟩
  next => exact ⟨by simp, rfl, fun _ => rfl⟩

theorem spells_of_normal {directory : String} {names : List (List Char)} (proper : ∀ name ∈ names, IsName name)
    (spelled : directory.toList = ofSegments names) : Spells directory names := by
  by_cases root : names = []
  next =>
    subst root
    apply spells_root
    right
    rw [← String.toList_inj, spelled]
    rfl
  next =>
    rw [ofSegments_eq_trail root] at spelled
    refine ⟨proper, ?_, fun w => ?_⟩
    next => rw [spelled, spelled_trail proper]
    next => rw [find, components_of_trail proper root spelled]

theorem mem_walk_iff {w : Workspace} {directory file : String} : file ∈ w.walk directory ↔
    ∃ entries outer path, w.find directory = .ok (.directory entries :: outer) ∧
      path ∈ filesBelow (spelled directory.toList) entries ∧ file.toList = slashed path := by
  unfold walk
  split
  next entries outer found =>
    simp only [List.mem_mergeSort, List.mem_map]
    constructor
    next =>
      rintro ⟨path, member, rfl⟩
      exact ⟨entries, outer, path, found, member, String.toList_ofList⟩
    next =>
      rintro ⟨_, _, path, same, member, spelled⟩
      rw [found] at same
      cases same
      exact ⟨path, member, by rw [← spelled, String.ofList_toList]⟩
  next missing =>
    simp only [List.not_mem_nil, false_iff, not_exists, not_and]
    exact fun entries outer _ found => absurd found (missing entries outer)

theorem mem_walk {w : Workspace} (plain : w.isPlain = true) {directory file : String} {outer : List (List Char)}
    (spells : Spells directory outer) (member : file ∈ w.walk directory) :
    ∃ inner, inner ≠ [] ∧ (∀ name ∈ outer ++ inner, IsName name) ∧ file.toList = trail (outer ++ inner) := by
  obtain ⟨entries, place, path, found, member, spelled⟩ := mem_walk_iff.mp member
  rw [spells.spelled] at member
  obtain ⟨inner, filled, proper, rfl⟩ := mem_filesBelow entries (arePlain_of_find plain found) member
  have all : ∀ name ∈ outer ++ inner, IsName name := List.forall_mem_append.mpr ⟨spells.proper, proper⟩
  refine ⟨inner, filled, all, ?_⟩
  rw [spelled, ← trail_append, slashed_eq_self (backslash_not_mem_trail all)]

theorem walk_of_hasFile {w : Workspace} {directory file : String} {outer inner : List (List Char)}
    (spells : Spells directory outer) (filled : inner ≠ []) (proper : ∀ name ∈ inner, IsName name)
    (spelled : file.toList = trail (outer ++ inner)) (present : w.hasFile file = true) : file ∈ w.walk directory := by
  have all : ∀ name ∈ outer ++ inner, IsName name := List.forall_mem_append.mpr ⟨spells.proper, proper⟩
  have path : w.find file = follow [w.root] ((outer ++ inner).map String.ofList) := by
    rw [find, components_of_trail all (by simp [filled]) spelled]
  unfold hasFile at present
  split at present
  next contents place found =>
    rw [path, List.map_append, follow_append] at found
    cases reached : follow [w.root] (outer.map String.ofList) with
    | error fault =>
      rw [reached] at found
      cases found
    | ok inside =>
      simp only [reached, Except.bind] at found
      obtain ⟨entries, outer', rfl⟩ := directory_of_follow filled proper found
      have member : trail outer ++ trail inner ∈ filesBelow (trail outer) entries := by
        rw [← Node.files]
        exact files_of_follow proper found (by rw [Node.files, List.mem_singleton])
      rw [mem_walk_iff, spells.find, spells.spelled, reached]
      refine ⟨entries, outer', trail outer ++ trail inner, rfl, member, ?_⟩
      rw [spelled, ← trail_append, slashed_eq_self (backslash_not_mem_trail all)]
  next => cases present

end ClassLinker.Workspace
