import Mathlib.Data.List.Induction
import Mathlib.Data.List.Nodup
import ClassLinker.Proofs.Registry

set_option autoImplicit false

/-!
A registry as a log of its classes, in the order in which they were registered. Whatever operations are made, the two
give the same answers: the table of the classes and the lists of names by file together hold what the log holds.
-/

namespace ClassLinker.Registry

inductive Operation where
  | register (d : Descriptor)
  | removeFile (file : String)
  | setImports (name : String) (imports : List String)
  | clear

def apply (r : Registry) : Operation → Registry
  | .register d => (r.register d).2
  | .removeFile file => (r.removeFile file).2
  | .setImports name imports => r.setImports name imports
  | .clear => empty

def after (operations : List Operation) : Registry := operations.foldl apply empty

@[simp] theorem after_nil : after [] = empty := rfl

theorem after_append (operations : List Operation) (operation : Operation) :
    after (operations ++ [operation]) = (after operations).apply operation :=
  List.foldl_concat ..

abbrev Log := List Descriptor

namespace Log

def apply (log : Log) : Operation → Log
  -- a class that is registered again moves to the end
  | .register d => log.filter (·.name ≠ d.name) ++ [d]
  | .removeFile file => log.filter (·.sourceFile ≠ file)
  | .setImports name imports => log.map fun d => if d.name = name then { d with imports } else d
  | .clear => []

def after (operations : List Operation) : Log := operations.foldl apply []

theorem after_append (operations : List Operation) (operation : Operation) :
    after (operations ++ [operation]) = (after operations).apply operation :=
  List.foldl_concat ..

def Distinct (log : Log) : Prop := (log.map (·.name)).Nodup

theorem Distinct.filter {log : Log} (distinct : log.Distinct) (keep : Descriptor → Bool) :
    Distinct (log.filter keep) :=
  List.Nodup.sublist (List.filter_sublist.map _) distinct

theorem Distinct.unique {log : Log} (distinct : log.Distinct) {d e : Descriptor} (here : d ∈ log) (there : e ∈ log)
    (same : d.name = e.name) : d = e :=
  List.inj_on_of_nodup_map distinct here there same

theorem map_name_setImports (log : Log) (name : String) (imports : List String) :
    (log.apply (.setImports name imports)).map (·.name) = log.map (·.name) := by
  rw [apply, List.map_map]
  apply List.map_congr_left
  intro d _
  simp only [Function.comp_apply]
  split <;> rfl

theorem Distinct.apply {log : Log} (distinct : log.Distinct) (operation : Operation) :
    (log.apply operation).Distinct := by
  cases operation with
  | register d =>
    unfold Distinct Log.apply
    rw [List.map_append, List.nodup_append]
    refine ⟨distinct.filter _, by simp, ?_⟩
    intro name old new last
    simp only [List.map_cons, List.map_nil, List.mem_singleton] at last
    obtain ⟨e, member, rfl⟩ := List.mem_map.mp old
    simpa [last] using (List.mem_filter.mp member).2
  | removeFile file => exact distinct.filter _
  | setImports name imports =>
    unfold Distinct
    rw [map_name_setImports]
    exact distinct
  | clear => exact List.nodup_nil

theorem Distinct.find_eq_some {log : Log} (distinct : log.Distinct) {name : String} {d : Descriptor} :
    log.find? (·.name = name) = some d ↔ d ∈ log ∧ d.name = name := by
  constructor
  next =>
    intro found
    exact ⟨List.mem_of_find?_eq_some found, by simpa using List.find?_some found⟩
  next =>
    rintro ⟨member, named⟩
    cases found : log.find? (·.name = name) with
    | none =>
      have absent := List.find?_eq_none.mp found d member
      simp [named] at absent
    | some e =>
      have named' : e.name = name := by simpa using List.find?_some found
      rw [distinct.unique (List.mem_of_find?_eq_some found) member (named'.trans named.symm)]

end Log

/-- The registry holds the classes of the log, those of each file in the same order. -/
structure Holds (r : Registry) (log : Log) : Prop where
  distinct : log.Distinct
  classes : ∀ {name : String} {d : Descriptor}, r.get? name = some d ↔ d ∈ log ∧ d.name = name
  names : ∀ file : String, r.namesIn file = (log.filter (·.sourceFile = file)).map (·.name)
  filled : ∀ file : String, r.byFile[file]? ≠ some []

theorem filled_unregister {r : Registry} (filled : ∀ file : String, r.byFile[file]? ≠ some []) (name file : String) :
    (r.unregister name).2.byFile[file]? ≠ some [] := by
  unfold unregister
  split
  next => exact filled file
  next old _ =>
    unfold disown
    simp only
    split
    next => exact filled file
    next names _ =>
      split
      next =>
        rw [Table.get_erase]
        split
        next => simp
        next => exact filled file
      next some =>
        rw [Table.get_insert]
        split
        next => simpa using some
        next => exact filled file

theorem holds_empty : Holds empty [] where
  distinct := List.nodup_nil
  classes := by simp [get?, empty]
  names := by simp [namesIn, empty]
  filled := by simp [empty]

section
variable {r : Registry} {log : Log} (holds : r.Holds log)
include holds

theorem Holds.coherent : r.Coherent where
  named := fun found => (holds.classes.mp found).2
  owned := by
    intro name d found
    obtain ⟨member, named⟩ := holds.classes.mp found
    rw [holds.names, ← named]
    exact List.mem_map_of_mem (List.mem_filter.mpr ⟨member, by simp⟩)
  listed := by
    intro file name member
    rw [holds.names] at member
    obtain ⟨d, inside, named⟩ := List.mem_map.mp member
    obtain ⟨inside, source⟩ := List.mem_filter.mp inside
    exact ⟨d, holds.classes.mpr ⟨inside, named⟩, by simpa using source⟩
  distinct := by
    intro file
    rw [holds.names]
    exact holds.distinct.filter _

theorem Holds.register (d : Descriptor) : (r.register d).2.Holds (log.apply (.register d)) where
  distinct := holds.distinct.apply (.register d)
  classes := by
    intro name e
    rw [get_register, Log.apply, List.mem_append, List.mem_singleton, List.mem_filter]
    by_cases same : d.name = name
    next =>
      subst same
      rw [if_pos rfl]
      constructor
      next =>
        rintro ⟨⟩
        simp
      next =>
        rintro ⟨⟨_, differs⟩ | rfl, named⟩
        next => simp [named] at differs
        next => rfl
    next =>
      rw [if_neg same, holds.classes]
      constructor
      next =>
        rintro ⟨member, rfl⟩
        exact ⟨.inl ⟨member, by simpa using Ne.symm same⟩, rfl⟩
      next =>
        rintro ⟨⟨member, _⟩ | rfl, named⟩
        next => exact ⟨member, named⟩
        next => exact absurd named same
  names := by
    intro file
    -- the name leaves the list of the file that had it, before the file of the new class gets it at the end
    have rest : (r.namesIn file).filter (· ≠ d.name) =
        ((log.filter (·.name ≠ d.name)).filter (·.sourceFile = file)).map (·.name) := by
      rw [holds.names, List.filter_map, List.filter_filter, List.filter_filter]
      congr 2
      funext e
      exact Bool.and_comm _ _
    rw [holds.coherent.namesIn_register, Log.apply, List.filter_append, List.map_append, ← rest]
    by_cases same : d.sourceFile = file <;> simp [same]
  filled := by
    intro file
    simp only [Registry.register, Table.get_insert]
    split
    next =>
      rw [Ne, Option.some.injEq]
      exact List.ne_nil_of_mem ((mem_pushUnique _ _ _).mpr (.inr rfl))
    next => exact filled_unregister holds.filled d.name file

theorem Holds.removeFile (file : String) : (r.removeFile file).2.Holds (log.apply (.removeFile file)) where
  distinct := holds.distinct.apply (.removeFile file)
  classes := by
    intro name d
    rw [holds.coherent.get_removeFile, Option.filter_eq_some_iff, holds.classes, Log.apply, List.mem_filter]
    exact and_right_comm
  names := by
    intro other
    rw [holds.coherent.namesIn_removeFile, holds.names, Log.apply, List.filter_filter]
    by_cases same : file = other
    next =>
      rw [if_pos same, eq_comm, List.map_eq_nil_iff, List.filter_eq_nil_iff]
      intro d _
      simp [same]
    next =>
      rw [if_neg same]
      congr 1
      apply List.filter_congr
      intro d _
      by_cases own : d.sourceFile = other <;> simp [own, Ne.symm same]
  filled := by
    intro other
    rw [holds.coherent.byFile_removeFile, Table.get_erase]
    split
    next => simp
    next => exact holds.filled other

theorem Holds.setImports (name : String) (imports : List String) :
    (r.setImports name imports).Holds (log.apply (.setImports name imports)) where
  distinct := holds.distinct.apply (.setImports name imports)
  classes := by
    intro other d
    rw [get_setImports, Log.apply, List.mem_map]
    by_cases same : name = other
    next =>
      subst same
      rw [if_pos rfl, Option.map_eq_some_iff]
      constructor
      next =>
        rintro ⟨e, found, rfl⟩
        obtain ⟨member, named⟩ := holds.classes.mp found
        exact ⟨⟨e, member, by rw [if_pos named]⟩, named⟩
      next =>
        rintro ⟨⟨e, member, rfl⟩, named⟩
        have named' : e.name = name := by
          split at named <;> exact named
        exact ⟨e, holds.classes.mpr ⟨member, named'⟩, by rw [if_pos named']⟩
    next =>
      rw [if_neg same, holds.classes]
      constructor
      next =>
        rintro ⟨member, rfl⟩
        exact ⟨⟨d, member, by rw [if_neg (Ne.symm same)]⟩, rfl⟩
      next =>
        rintro ⟨⟨e, member, rfl⟩, named⟩
        split at named
        next own => exact absurd (own.symm.trans named) same
        next other_name =>
          rw [if_neg other_name]
          exact ⟨member, named⟩
  names := by
    intro file
    have here : (r.setImports name imports).namesIn file = r.namesIn file := by simp [namesIn]
    have filtered : (log.apply (.setImports name imports)).filter (·.sourceFile = file) =
        Log.apply (log.filter (·.sourceFile = file)) (.setImports name imports) := by
      rw [Log.apply, Log.apply, List.filter_map]
      congr 1
      apply List.filter_congr
      intro d _
      simp only [Function.comp_apply]
      split <;> rfl
    rw [here, holds.names, filtered, Log.map_name_setImports]
  filled := by
    intro file
    rw [byFile_setImports]
    exact holds.filled file

theorem Holds.apply (operation : Operation) : (r.apply operation).Holds (log.apply operation) := by
  cases operation with
  | register d => exact holds.register d
  | removeFile file => exact holds.removeFile file
  | setImports name imports => exact holds.setImports name imports
  | clear => exact holds_empty

theorem Holds.get (name : String) : r.get? name = log.find? (·.name = name) := by
  apply Option.ext
  intro d
  rw [holds.classes, holds.distinct.find_eq_some]

theorem Holds.size : r.size = log.length := by
  -- the keys of the table are the names in the log, in an order of their own
  have same : r.classes.keys.Perm (log.map (·.name)) := by
    rw [List.perm_ext_iff_of_nodup Std.ExtTreeMap.nodup_keys holds.distinct]
    intro name
    rw [Std.ExtTreeMap.mem_keys, Std.ExtTreeMap.mem_iff_isSome_getElem?, Option.isSome_iff_exists, List.mem_map]
    exact exists_congr fun _ => holds.classes
  rw [Registry.size, ← Std.ExtTreeMap.length_keys, same.length_eq, List.length_map]

theorem Holds.mem_files (file : String) : file ∈ r.files ↔ file ∈ log.map (·.sourceFile) := by
  have names := holds.names file
  rw [files, Std.ExtTreeMap.mem_keys, Std.ExtTreeMap.mem_iff_isSome_getElem?]
  unfold namesIn at names
  constructor
  next =>
    intro listed
    obtain ⟨list, found⟩ := Option.isSome_iff_exists.mp listed
    rw [found, Option.getD_some] at names
    have some : list ≠ [] := fun none => holds.filled file (none ▸ found)
    rw [names, Ne, List.map_eq_nil_iff] at some
    obtain ⟨d, member⟩ := List.exists_mem_of_ne_nil _ some
    obtain ⟨member, source⟩ := List.mem_filter.mp member
    exact List.mem_map.mpr ⟨d, member, by simpa using source⟩
  next =>
    intro defined
    obtain ⟨d, member, source⟩ := List.mem_map.mp defined
    have listed : d.name ∈ (log.filter (·.sourceFile = file)).map (·.name) :=
      List.mem_map_of_mem (List.mem_filter.mpr ⟨member, by simpa using source⟩)
    rw [← names] at listed
    cases found : r.byFile[file]? with
    | none => simp [found] at listed
    | some list => rfl

theorem Holds.classesIn (file : String) : r.classesIn file = log.filter (·.sourceFile = file) := by
  change (r.namesIn file).filterMap r.get? = _
  rw [holds.names, List.filterMap_map]
  have each : ∀ d ∈ log.filter (·.sourceFile = file), (r.get? ∘ (·.name)) d = some d :=
    fun d member => holds.classes.mpr ⟨(List.mem_filter.mp member).1, rfl⟩
  rw [List.filterMap_congr each]
  exact List.filterMap_some

end

theorem holds_after (operations : List Operation) : (after operations).Holds (Log.after operations) := by
  induction operations using List.reverseRecOn with
  | nil => exact holds_empty
  | append_singleton operations operation ih =>
    rw [after_append, Log.after_append]
    exact ih.apply operation

/-- After any operations, a registry answers as the log does. Adding a class gives back the entry that it replaces,
and removing a file gives back the entries of that file, in the order of the log. -/
theorem operations_refine_log (operations : List Operation) :
    let r := after operations
    let log := Log.after operations
    (log.map (·.name)).Nodup ∧
    (∀ name, r.get? name = log.find? (·.name = name)) ∧
    r.size = log.length ∧
    (r.files.Nodup ∧ ∀ file, file ∈ r.files ↔ file ∈ log.map (·.sourceFile)) ∧
    (∀ file, r.classesIn file = log.filter (·.sourceFile = file)) ∧
    (∀ d, (r.register d).1 = log.find? (·.name = d.name)) ∧
    (∀ file, (r.removeFile file).1 = log.filter (·.sourceFile = file)) := by
  intro r log
  have holds : r.Holds log := holds_after operations
  refine ⟨holds.distinct, holds.get, holds.size, ⟨Std.ExtTreeMap.nodup_keys, holds.mem_files⟩, holds.classesIn, ?_, ?_⟩
  next =>
    intro d
    rw [← holds.get]
    exact fst_unregister r d.name
  next =>
    intro file
    rw [holds.coherent.fst_removeFile, holds.classesIn]

end ClassLinker.Registry
