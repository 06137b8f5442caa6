import Mathlib.Data.List.DropRight
import ClassLinker.Proofs.Configuration
import ClassLinker.Proofs.NormalPaths

set_option autoImplicit false

namespace ClassLinker

namespace WebPath

theorem mem_of_mem_dropHere {cs : List Char} {c : Char} (member : c ∈ dropHere cs) : c ∈ cs := by
  fun_induction dropHere cs with
  | case1 rest ih => exact List.mem_cons_of_mem _ (List.mem_cons_of_mem _ (ih member))
  | case2 => exact member

theorem toList_normaliseBase (path : String) : ∃ inner, (normaliseBase path).toList = '/' :: inner ∧ '\\' ∉ inner ∧
    inner.head? ≠ some '/' ∧ Text.dropEnd (· = '/') inner = inner := by
  obtain ⟨slashes, _, split⟩ := eq_dropEnd_append ((dropHere (slashed path.toList)).dropWhile (· = '/'))
  refine ⟨_, String.toList_ofList, ?_, ?_, ?_⟩
  next =>
    intro backslash
    have inside := List.mem_append_left slashes backslash
    rw [← split] at inside
    exact not_mem_slashed path.toList (mem_of_mem_dropHere ((List.dropWhile_sublist _).mem inside))
  next =>
    intro slash
    -- what ends a text was dropped after what starts it, so that the start is still the same
    have start : ((dropHere (slashed path.toList)).dropWhile (· = '/')).head? = some '/' := by
      rw [split, List.head?_append, slash, Option.some_or]
    have other := List.head?_dropWhile_not (· = '/') (dropHere (slashed path.toList))
    rw [start] at other
    simp at other
  next => simp only [Text.dropEnd, List.reverse_reverse, List.dropWhile_idempotent]

theorem normaliseBase_normaliseBase (path : String) : normaliseBase (normaliseBase path) = normaliseBase path := by
  obtain ⟨inner, spelled, clean, start, ends⟩ := toList_normaliseBase path
  have unslashed : slashed ('/' :: inner) = '/' :: inner := slashed_eq_self (by simp [clean])
  have dropped : (dropHere ('/' :: inner)).dropWhile (· = '/') = inner := by
    rw [dropHere, List.dropWhile_cons_of_pos rfl]
    next =>
      cases inner with
      | nil => rfl
      | cons c rest => exact List.dropWhile_cons_of_neg (by simpa using start)
    next => simp
  rw [← String.toList_inj, normaliseBase, spelled, unslashed, dropped, ends, String.toList_ofList]

end WebPath

theorem Table.ofList_toList {α : Type} (table : Table α) : Table.ofList table.toList = table := by
  apply Table.ext_get
  intro name
  rw [Table.ofList, Table.get_overlay, Std.ExtTreeMap.getElem?_empty, Option.or_none]

theorem Target.normal_normal (target : Target) : target.normal.normal = target.normal := by
  cases target with
  | path base => exact congrArg Target.path (WebPath.normaliseBase_normaliseBase base)
  | disabled => rfl

namespace Config

open Json (Unitary readBool readString readList readChoice sortedMembers)

theorem readStrings_strings (items : List String) : readStrings (.strings items) = .ok items := by
  induction items with
  | nil => rfl
  | cons item rest ih =>
    have others : (rest.map Json.string).mapM readString = .ok rest := ih
    show ((item :: rest).map Json.string).mapM readString = .ok (item :: rest)
    rw [List.map_cons, List.mapM_cons, others]
    rfl

theorem readChoice_dedup (unit : Unitary) (policy : DedupPolicy) :
    readChoice unit dedupNames (.string policy.name) = .ok policy := by
  cases policy <;> rfl

theorem readChoice_unmapped (unit : Unitary) (policy : UnmappedPolicy) :
    readChoice unit unmappedNames (.string policy.name) = .ok policy := by
  cases policy <;> rfl

theorem readTarget_toJson {target : Target} (normal : target.normal = target) :
    readTarget target.toJson = .ok target := by
  cases target with
  | path base => exact congrArg Except.ok normal
  | disabled => rfl

theorem mapM_readTarget {entries : List (String × Target)} (normal : ∀ entry ∈ entries, entry.2.normal = entry.2) :
    (entries.map fun (name, target) => (name, target.toJson)).mapM
      (fun (name, value) => do return (name, ← readTarget value)) = .ok entries := by
  induction entries with
  | nil => rfl
  | cons entry rest ih =>
    obtain ⟨own, others⟩ := List.forall_mem_cons.mp normal
    obtain ⟨name, target⟩ := entry
    simp only [List.map_cons, List.mapM_cons, ih others, readTarget_toJson own]
    rfl

theorem sortedMembers_toList (table : Table Target) :
    sortedMembers (table.toList.map fun (name, target) => (name, target.toJson)) =
      table.toList.map fun (name, target) => (name, target.toJson) := by
  apply List.mergeSort_of_pairwise
  rw [List.pairwise_map]
  refine Std.ExtTreeMap.ordered_keys_toList.imp ?_
  intro a b before
  rw [decide_eq_true_eq]
  exact Std.le_of_lt (compareOfLessAndEq_eq_lt.mp before)

theorem readMappings_toJson {table : Table Target} (normal : HasNormalTargets table) :
    readMappings (.object (table.toList.map fun (name, target) => (name, target.toJson))) = .ok table := by
  have each : ∀ entry ∈ table.toList, entry.2.normal = entry.2 := by
    intro entry member
    obtain ⟨given, same⟩ := normal (Std.ExtTreeMap.mem_toList_iff_getElem?_eq_some.mp member)
    rw [← same, Target.normal_normal]
  rw [readMappings, sortedMembers_toList, mapM_readTarget each]
  exact congrArg Except.ok (Table.ofList_toList table)

def member (c : Config) : String → Json
  | "mappings" => .object (c.mappings.toList.map fun (name, target) => (name, target.toJson))
  | "include" => .strings c.included
  | "exclude" => .strings c.excluded
  | "dedup" => .string c.dedup.name
  | "unmapped" => .string c.unmapped.name
  | "replaceCallParent" => .bool c.replaceCallParent
  | "autoImportAssets" => .bool c.autoImportAssets
  | "scripts" => .strings c.scripts
  | "assets" => .strings c.assets
  | "classSystems" => .strings c.classSystems
  | _ => .null

theorem toJson_eq (c : Config) : c.toJson = .object (fieldNames.map fun name => (name, c.member name)) := rfl

def sortedNames : List String :=
  ["assets", "autoImportAssets", "classSystems", "dedup", "exclude", "include", "mappings", "replaceCallParent",
   "scripts", "unmapped"]

theorem sortedMembers_members (c : Config) :
    sortedMembers (fieldNames.map fun name => (name, c.member name)) =
      sortedNames.map fun name => (name, c.member name) := by
  have sorted : fieldNames.mergeSort (fun a b => a ≤ b) = sortedNames := by
    refine List.Perm.eq_of_pairwise (fun a b _ _ first second => ?_) (List.pairwise_mergeSort ?_ ?_ fieldNames)
      (by decide) ((List.mergeSort_perm fieldNames _).trans (by decide))
    next => exact String.le_antisymm (of_decide_eq_true first) (of_decide_eq_true second)
    next =>
      intro a b c first second
      exact decide_eq_true (String.le_trans (of_decide_eq_true first) (of_decide_eq_true second))
    next =>
      intro a b
      simpa using String.le_total a b
  rw [← sorted, sortedMembers]
  exact (List.map_mergeSort (f := fun name => (name, c.member name)) fun _ _ _ _ => rfl).symm

theorem setFields_members {c : Config} (normal : HasNormalTargets c.mappings) (unit : Unitary) (start : Config) :
    setFields unit start (sortedNames.map fun name => (name, c.member name)) = .ok c := by
  simp only [setFields, sortedNames, List.map_cons, List.map_nil, List.foldlM_cons, List.foldlM_nil, setField, member,
    readStrings_strings, readChoice_dedup, readChoice_unmapped, readMappings_toJson normal, readBool]
  rfl

theorem ofJson_toJson {c : Config} (normal : HasNormalTargets c.mappings) : ofJson c.toJson = .ok c := by
  have written : read Json.nullUnit c.toJson = .ok c := by
    rw [toJson_eq, read, sortedMembers_members, setFields_members normal]
  rw [toJson_eq] at written ⊢
  rw [ofJson, written]
  simp

/-- Every configuration that is read from a value survives being written and read again. All configurations whose
directories are normalised can be read, and no others. -/
theorem configuration_survives_writing :
    (∀ (value : Json) (c : Config), ofJson value = .ok c → ofJson c.toJson = .ok c) ∧
    (∀ c : Config, (∃ value, ofJson value = .ok c) ↔
      ∀ stem base : String, c.mappings[stem]? = some (.path base) → WebPath.normaliseBase base = base) := by
  have survives {value : Json} {c : Config} (accepted : ofJson value = .ok c) : ofJson c.toJson = .ok c :=
    ofJson_toJson (IsMade.json accepted).hasNormalTargets
  refine ⟨fun value c => survives, fun c => ⟨?_, ?_⟩⟩
  next =>
    rintro ⟨value, accepted⟩ stem base found
    obtain ⟨given, same⟩ := (IsMade.json accepted).hasNormalTargets found
    have normal := Target.normal_normal given
    rw [same] at normal
    exact Target.path.inj normal
  next =>
    intro normal
    refine ⟨c.toJson, ofJson_toJson fun {stem target} found => ⟨target, ?_⟩⟩
    cases target with
    | path base => exact congrArg Target.path (normal stem base found)
    | disabled => rfl

theorem positional_configuration_survives_writing :
    let value : Json := .array [.object [("N", .string ".\\src\\lib//")], .strings ["/lib/**"], .strings [],
      .object [("perFile", .null)]]
    let c : Config :=
      { default with mappings := Table.ofList [("N", .path "/src/lib")], included := ["/lib/**"], dedup := .file }
    ofJson value = .ok c ∧ ofJson c.toJson = .ok c := by
  -- Some fields are given by their place: a directory that is spelled in another way, and a choice that is an object
  -- with another of its names.
  intro value c
  have base : WebPath.normaliseBase ".\\src\\lib//" = "/src/lib" := by decide +kernel
  have directory : readTarget (.string ".\\src\\lib//") = .ok (.path "/src/lib") := by
    rw [← base]
    rfl
  have mapped : readMappings (.object [("N", .string ".\\src\\lib//")]) = .ok c.mappings := by
    simp only [readMappings, sortedMembers, List.mergeSort_singleton, List.mapM_cons, directory]
    rfl
  have accepted : ofJson value = .ok c := by
    simp only [value, ofJson, read, setFields, fieldNames, List.zip_cons_cons, List.zip_nil_right, List.foldlM_cons,
      List.foldlM_nil, setField, mapped, readStrings_strings]
    rfl
  exact ⟨accepted, configuration_survives_writing.1 value c accepted⟩

end Config

end ClassLinker
