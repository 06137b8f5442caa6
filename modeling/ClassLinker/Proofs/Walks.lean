import Mathlib.Data.List.Dedup
import ClassLinker.Proofs.Scope

set_option autoImplicit false

namespace ClassLinker.Workspace

open WebPath

mutual

def Node.isDistinct : Node → Bool
  | .file _ => true
  | .directory entries => areDistinct entries

def areDistinct : List (String × Node) → Bool
  | [] => true
  | (name, node) :: rest => (rest.lookup name).isNone && node.isDistinct && areDistinct rest

end

def isDistinct (w : Workspace) : Bool := areDistinct w.entries

theorem isDistinct_of_lookup {entries : List (String × Node)} {name : String} {node : Node}
    (distinct : areDistinct entries = true) (entry : entries.lookup name = some node) : node.isDistinct = true := by
  induction entries with
  | nil => cases entry
  | cons first rest ih =>
    obtain ⟨other, node'⟩ := first
    simp only [areDistinct, Bool.and_eq_true] at distinct
    rw [List.lookup_cons] at entry
    split at entry
    next =>
      cases entry
      exact distinct.1.2
    next => exact ih distinct.2 entry

theorem areDistinct_of_find {w : Workspace} (distinct : w.isDistinct = true) {path : String}
    {entries : List (String × Node)} {outer : List Node} (found : w.find path = .ok (.directory entries :: outer)) :
    areDistinct entries = true := by
  have rootDistinct : ∀ node ∈ [w.root], node.isDistinct = true := by
    intro node member
    rw [List.mem_singleton.mp member, root, Node.isDistinct]
    exact distinct
  have hereditary {entries : List (String × Node)} {name : String} {node : Node}
      (inside : (Node.directory entries).isDistinct = true) (entry : entries.lookup name = some node) :
      node.isDistinct = true := by
    rw [Node.isDistinct] at inside
    exact isDistinct_of_lookup inside entry
  have inner := forall_mem_of_follow hereditary rootDistinct found _ List.mem_cons_self
  rwa [Node.isDistinct] at inner

theorem lookup_setEntry_of_ne {name key : String} (other : key ≠ name) (node : Node) (entries : List (String × Node)) :
    (setEntry name node entries).lookup key = entries.lookup key := by
  induction entries with
  | nil => rw [setEntry, List.lookup_cons, beq_false_of_ne other]
  | cons first rest ih =>
    obtain ⟨name', old⟩ := first
    rw [setEntry]
    split
    next same => rw [List.lookup_cons, List.lookup_cons, same, beq_false_of_ne other]
    next => rw [List.lookup_cons, List.lookup_cons, ih]

theorem areDistinct_setEntry {name : String} {node : Node} {entries : List (String × Node)}
    (distinct : areDistinct entries = true) (inner : node.isDistinct = true) :
    areDistinct (setEntry name node entries) = true := by
  induction entries with
  | nil => simpa [setEntry, areDistinct] using inner
  | cons first rest ih =>
    obtain ⟨key, old⟩ := first
    simp only [areDistinct, Bool.and_eq_true] at distinct
    obtain ⟨⟨single, oldInner⟩, others⟩ := distinct
    rw [setEntry]
    split
    next => simp [areDistinct, single, inner, others]
    next other => simp [areDistinct, lookup_setEntry_of_ne other, single, oldInner, ih others]

theorem areDistinct_put {node : Node} (inner : node.isDistinct = true) {names : List String}
    {entries : List (String × Node)} (distinct : areDistinct entries = true) :
    areDistinct (put node names entries) = true := by
  fun_induction put node names entries with
  | case1 => exact distinct
  | case2 => exact areDistinct_setEntry distinct inner
  | case3 name rest entries _ inside entry ih =>
    have below := isDistinct_of_lookup distinct entry
    rw [Node.isDistinct] at below
    exact areDistinct_setEntry distinct (ih below)
  | case4 name rest entries _ _ ih => exact areDistinct_setEntry distinct (ih rfl)

theorem areDistinct_filter {entries : List (String × Node)} (distinct : areDistinct entries = true)
    (keep : String × Node → Bool) : areDistinct (entries.filter keep) = true := by
  induction entries with
  | nil => rfl
  | cons first rest ih =>
    obtain ⟨key, node⟩ := first
    simp only [areDistinct, Bool.and_eq_true, Option.isNone_iff_eq_none] at distinct
    obtain ⟨⟨single, inner⟩, others⟩ := distinct
    rw [List.filter_cons]
    split
    next =>
      have still : (rest.filter keep).lookup key = none := by
        rw [List.lookup_eq_none_iff] at single ⊢
        exact fun entry member => single entry (List.mem_filter.mp member).1
      simp only [areDistinct, still, inner, ih others, Option.isNone_none, Bool.and_self]
    next => exact ih others

theorem areDistinct_drop {names : List String} {entries : List (String × Node)}
    (distinct : areDistinct entries = true) : areDistinct (drop names entries) = true := by
  fun_induction drop names entries with
  | case1 => exact distinct
  | case2 name entries => exact areDistinct_filter distinct _
  | case3 name rest entries _ inside entry ih =>
    have below := isDistinct_of_lookup distinct entry
    rw [Node.isDistinct] at below
    exact areDistinct_setEntry distinct (ih below)
  | case4 => exact distinct

section
variable {w : Workspace} (distinct : w.isDistinct = true) (path : String)
include distinct

theorem isDistinct_write (contents : Contents) : (w.write path contents).isDistinct = true :=
  areDistinct_put rfl distinct

theorem isDistinct_remove : (w.remove path).isDistinct = true :=
  areDistinct_drop distinct

end

theorem follow_outer {names : List (List Char)} (proper : ∀ name ∈ names, IsName name) {node found : Node}
    {outer place : List Node} (reached : follow (node :: outer) (names.map String.ofList) = .ok (found :: place))
    (outer' : List Node) : ∃ place', follow (node :: outer') (names.map String.ofList) = .ok (found :: place') := by
  induction names generalizing node outer outer' with
  | nil =>
    simp only [List.map_nil, follow, Except.ok.injEq, List.cons.injEq] at reached ⊢
    exact ⟨outer', reached.1, rfl⟩
  | cons name names ih =>
    cases node with
    | file _ => cases reached
    | directory entries =>
      rw [List.map_cons, follow_name (proper name List.mem_cons_self)] at reached ⊢
      cases entry : entries.lookup (String.ofList name) with
      | none =>
        rw [entry] at reached
        cases reached
      | some node =>
        rw [entry, Option.elim_some] at reached
        exact ih (fun other member => proper other (List.mem_cons_of_mem _ member)) reached _

structure LeadsToFile (node : Node) (names : List (List Char)) : Prop where
  proper : ∀ name ∈ names, IsName name
  reached : ∀ outer, ∃ contents place, follow (node :: outer) (names.map String.ofList) = .ok (.file contents :: place)

theorem leadsToFile_cons_iff {entries : List (String × Node)} {name : List Char} {names : List (List Char)} :
    LeadsToFile (.directory entries) (name :: names) ↔
      IsName name ∧ ∃ node, entries.lookup (String.ofList name) = some node ∧ LeadsToFile node names := by
  constructor
  next =>
    intro leads
    obtain ⟨first, rest⟩ := List.forall_mem_cons.mp leads.proper
    obtain ⟨contents, place, reached⟩ := leads.reached []
    rw [List.map_cons, follow_name first] at reached
    cases entry : entries.lookup (String.ofList name) with
    | none =>
      rw [entry] at reached
      cases reached
    | some node =>
      rw [entry, Option.elim_some] at reached
      refine ⟨first, node, rfl, rest, fun outer => ?_⟩
      obtain ⟨place', reached'⟩ := follow_outer rest reached outer
      exact ⟨contents, place', reached'⟩
  next =>
    rintro ⟨first, node, entry, leads⟩
    refine ⟨List.forall_mem_cons.mpr ⟨first, leads.proper⟩, fun outer => ?_⟩
    rw [List.map_cons, follow_name first, entry]
    exact leads.reached _

mutual

theorem Node.leadsToFile_of_mem_files {base path : List Char} : (node : Node) → node.isPlain = true →
    node.isDistinct = true → path ∈ node.files base → ∃ names, LeadsToFile node names ∧ path = base ++ trail names
  | .file contents, _, _, member => by
    rw [Node.files, List.mem_singleton] at member
    exact ⟨[], ⟨by simp, fun outer => ⟨contents, outer, rfl⟩⟩, by simp [member]⟩
  | .directory entries, plain, distinct, member => by
    rw [Node.isPlain] at plain
    rw [Node.isDistinct] at distinct
    rw [Node.files] at member
    obtain ⟨name, names, leads, spelled⟩ := leadsToFile_of_mem_filesBelow entries plain distinct member
    exact ⟨name :: names, leads, spelled⟩

theorem leadsToFile_of_mem_filesBelow {base path : List Char} : (entries : List (String × Node)) →
    arePlain entries = true → areDistinct entries = true → path ∈ filesBelow base entries →
    ∃ name names, LeadsToFile (.directory entries) (name :: names) ∧ path = base ++ trail (name :: names)
  | [], _, _, member => by simp [filesBelow] at member
  | (name, node) :: rest, plain, distinct, member => by
    simp only [arePlain, Bool.and_eq_true, decide_eq_true_eq] at plain
    simp only [areDistinct, Bool.and_eq_true, Option.isNone_iff_eq_none] at distinct
    obtain ⟨⟨first, inner⟩, others⟩ := plain
    obtain ⟨⟨single, distinctInner⟩, distinctOthers⟩ := distinct
    rw [filesBelow, List.mem_append] at member
    rcases member with member | member
    next =>
      obtain ⟨names, leads, spelled⟩ := Node.leadsToFile_of_mem_files node inner distinctInner member
      refine ⟨name.toList, names, leadsToFile_cons_iff.mpr ⟨first, node, ?_, leads⟩, by simp [spelled]⟩
      simp
    next =>
      obtain ⟨name', names, leads, spelled⟩ := leadsToFile_of_mem_filesBelow rest others distinctOthers member
      obtain ⟨first', node', entry, leads'⟩ := leadsToFile_cons_iff.mp leads
      refine ⟨name', names, leadsToFile_cons_iff.mpr ⟨first', node', ?_, leads'⟩, spelled⟩
      -- a later entry has another name than the first one
      have other : (String.ofList name' == name) = false := by
        rw [beq_eq_false_iff_ne]
        rintro rfl
        cases single.symm.trans entry
      rw [List.lookup_cons, other]
      exact entry

end

mutual

theorem Node.nodup_files (base : List Char) :
    (node : Node) → node.isPlain = true → node.isDistinct = true → (node.files base).Nodup
  | .file _, _, _ => by simp [Node.files]
  | .directory entries, plain, distinct => by
    rw [Node.isPlain] at plain
    rw [Node.isDistinct] at distinct
    rw [Node.files]
    exact nodup_filesBelow base entries plain distinct

theorem nodup_filesBelow (base : List Char) : (entries : List (String × Node)) → arePlain entries = true →
    areDistinct entries = true → (filesBelow base entries).Nodup
  | [], _, _ => by simp [filesBelow]
  | (name, node) :: rest, plain, distinct => by
    simp only [arePlain, Bool.and_eq_true, decide_eq_true_eq] at plain
    simp only [areDistinct, Bool.and_eq_true, Option.isNone_iff_eq_none] at distinct
    obtain ⟨⟨first, inner⟩, others⟩ := plain
    obtain ⟨⟨single, distinctInner⟩, distinctOthers⟩ := distinct
    rw [filesBelow, List.nodup_append]
    refine ⟨Node.nodup_files _ node inner distinctInner, nodup_filesBelow base rest others distinctOthers, ?_⟩
    rintro path sooner _ later rfl
    obtain ⟨names, proper, spelled⟩ := Node.mem_files node inner sooner
    obtain ⟨name', names', leads, spelled'⟩ := leadsToFile_of_mem_filesBelow rest others distinctOthers later
    obtain ⟨_, _, entry, _⟩ := leadsToFile_cons_iff.mp leads
    -- the first name of the path would be that of two entries
    have same : trail (name.toList :: names) = trail (name' :: names') := by
      rw [spelled] at spelled'
      simpa using spelled'
    have proper' : ∀ other ∈ name.toList :: names, IsName other := List.forall_mem_cons.mpr ⟨first, proper⟩
    obtain ⟨rfl, _⟩ := List.cons.inj (trail_inj (fun other member => (proper' other member).slash)
      (fun other member => (leads.proper other member).slash) same)
    rw [String.ofList_toList] at entry
    cases single.symm.trans entry

end

theorem pairwise_walk (w : Workspace) (directory : String) : (w.walk directory).Pairwise (· ≤ ·) := by
  unfold walk
  split
  next =>
    refine (List.pairwise_mergeSort ?_ ?_ _).imp of_decide_eq_true
    next =>
      intro a b c first second
      exact decide_eq_true (String.le_trans (of_decide_eq_true first) (of_decide_eq_true second))
    next =>
      intro a b
      simpa using String.le_total a b
  next => exact .nil

theorem eq_of_mem_iff {files files' : List String} (sorted : files.Pairwise (· ≤ ·)) (sorted' : files'.Pairwise (· ≤ ·))
    (unique : files.Nodup) (unique' : files'.Nodup) (same : ∀ file, file ∈ files ↔ file ∈ files') : files = files' :=
  have perm : files.Perm files' := (List.perm_ext_iff_of_nodup unique unique').mpr same
  perm.eq_of_pairwise (fun _ _ _ _ => String.le_antisymm) sorted sorted'

section
variable {w : Workspace} (plain : w.isPlain = true) (distinct : w.isDistinct = true)
include plain distinct

theorem nodup_walk (directory : String) : (w.walk directory).Nodup := by
  unfold walk
  split
  next entries outer found =>
    have plainEntries := arePlain_of_find plain found
    have distinctEntries := areDistinct_of_find distinct found
    rw [(List.mergeSort_perm _ _).nodup_iff]
    refine List.Nodup.map_on ?_ (nodup_filesBelow _ entries plainEntries distinctEntries)
    intro path member path' member' same
    obtain ⟨names, _, proper, rfl⟩ := mem_filesBelow entries plainEntries member
    obtain ⟨names', _, proper', rfl⟩ := mem_filesBelow entries plainEntries member'
    -- only what stands before the names can have backslashes, and it is the same
    have trails := congrArg String.toList same
    rw [String.toList_ofList, String.toList_ofList, slashed_append, slashed_append,
      slashed_eq_self (backslash_not_mem_trail proper), slashed_eq_self (backslash_not_mem_trail proper')] at trails
    rw [List.append_cancel_left trails]
  next => exact .nil

theorem mem_walk_iff_of_spells {directory file : String} {outer : List (List Char)} (spells : Spells directory outer) :
    file ∈ w.walk directory ↔ w.hasFile file = true ∧
      ∃ inner, inner ≠ [] ∧ (∀ name ∈ inner, IsName name) ∧ file.toList = trail (outer ++ inner) := by
  constructor
  next =>
    intro member
    obtain ⟨entries, place, path, found, inside, spelled⟩ := mem_walk_iff.mp member
    have plainEntries := arePlain_of_find plain found
    have distinctEntries := areDistinct_of_find distinct found
    obtain ⟨name, names, leads, rfl⟩ := leadsToFile_of_mem_filesBelow entries plainEntries distinctEntries inside
    have all : ∀ other ∈ outer ++ name :: names, IsName other :=
      List.forall_mem_append.mpr ⟨spells.proper, leads.proper⟩
    have path : file.toList = trail (outer ++ name :: names) := by
      rw [spelled, spells.spelled, ← trail_append, slashed_eq_self (backslash_not_mem_trail all)]
    refine ⟨?_, name :: names, by simp, leads.proper, path⟩
    obtain ⟨contents, place', reached⟩ := leads.reached place
    have whole : w.find file = .ok (.file contents :: place') := by
      rw [find, components_of_trail all (by simp) path, List.map_append, follow_append, ← spells.find, found]
      exact reached
    rw [hasFile, whole]
  next =>
    rintro ⟨present, inner, filled, proper, spelled⟩
    exact walk_of_hasFile spells filled proper spelled present

theorem mem_walk_root_iff {file : String} :
    file ∈ w.walk "" ↔ w.hasFile file = true ∧ normalise file [] = file := by
  rw [mem_walk_iff_of_spells plain distinct (spells_root (.inl rfl))]
  refine and_congr_right fun present => ⟨?_, fun normal => ?_⟩
  next =>
    rintro ⟨names, filled, proper, spelled⟩
    exact normalise_eq_self_iff.mpr ⟨names, proper, spelled.trans (ofSegments_eq_trail filled).symm⟩
  next =>
    obtain ⟨names, isFile⟩ := Session.isFile_of_normal present normal
    exact ⟨names, isFile.filled, isFile.proper, isFile.spelled⟩

end

end ClassLinker.Workspace
