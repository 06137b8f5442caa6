import Mathlib.Data.List.Basic
import ClassLinker.Proofs.Table

set_option autoImplicit false

namespace ClassLinker.Registry

def namesIn (r : Registry) (file : String) : List String := r.byFile[file]?.getD []

structure Coherent (r : Registry) : Prop where
  named : ∀ {name : String} {d : Descriptor}, r.get? name = some d → d.name = name
  owned : ∀ {name : String} {d : Descriptor}, r.get? name = some d → name ∈ r.namesIn d.sourceFile
  listed : ∀ {file name : String}, name ∈ r.namesIn file → ∃ d, r.get? name = some d ∧ d.sourceFile = file
  distinct : ∀ file : String, (r.namesIn file).Nodup

theorem coherent_empty : Coherent empty where
  named := by simp [get?, empty]
  owned := by simp [get?, empty]
  listed := by simp [namesIn, empty]
  distinct := by simp [namesIn, empty]

theorem Coherent.file_unique {r : Registry} (coherent : r.Coherent) {file name : String} {d : Descriptor}
    (member : name ∈ r.namesIn file) (found : r.get? name = some d) : d.sourceFile = file := by
  obtain ⟨e, present, source⟩ := coherent.listed member
  rw [found] at present
  cases present
  exact source

theorem getD_disown (byFile : Table (List String)) (file name other : String) :
    (disown byFile file name)[other]?.getD [] =
      if file = other then (byFile[other]?.getD []).filter (· ≠ name) else byFile[other]?.getD [] := by
  unfold disown
  cases found : byFile[file]? with
  | none =>
    by_cases same : file = other
    next =>
      subst same
      simp [found]
    next => simp [same]
  | some names =>
    simp only
    split
    next last =>
      rw [List.isEmpty_iff] at last
      by_cases same : file = other
      next =>
        subst same
        rw [if_pos rfl, found, Option.getD_some, last]
        simp
      next => simp [same]
    next =>
      by_cases same : file = other
      next =>
        subst same
        simp [found]
      next => simp [same]

@[simp] theorem get_unregister (r : Registry) (name other : String) :
    (r.unregister name).2.get? other = if name = other then none else r.get? other := by
  unfold unregister get?
  cases found : r.classes[name]? with
  | none =>
    by_cases same : name = other
    next =>
      subst same
      simp [found]
    next => simp [same]
  | some old => simp

@[simp] theorem fst_unregister (r : Registry) (name : String) : (r.unregister name).1 = r.get? name := by
  unfold unregister get?
  cases found : r.classes[name]? <;> rfl

theorem Coherent.namesIn_unregister {r : Registry} (coherent : r.Coherent) (name file : String) :
    (r.unregister name).2.namesIn file = (r.namesIn file).filter (· ≠ name) := by
  have absent (missing : name ∉ r.namesIn file) : (r.namesIn file).filter (· ≠ name) = r.namesIn file := by
    rw [List.filter_eq_self]
    intro other member
    have differs : other ≠ name := fun same => missing (same ▸ member)
    simpa using differs
  cases found : r.get? name with
  | none =>
    have missing : name ∉ r.namesIn file := by
      intro member
      obtain ⟨d, present, _⟩ := coherent.listed member
      rw [found] at present
      cases present
    rw [absent missing]
    have same : (r.unregister name).2 = r := by
      unfold unregister
      rw [show r.classes[name]? = none from found]
    rw [same]
  | some old =>
    have removed : (r.unregister name).2.byFile = disown r.byFile old.sourceFile name := by
      unfold unregister
      rw [show r.classes[name]? = some old from found]
    unfold namesIn
    rw [removed, getD_disown]
    by_cases same : old.sourceFile = file
    next => simp [same]
    next =>
      have missing : name ∉ r.namesIn file := fun member => same (coherent.file_unique member found)
      simp only [same, if_false]
      exact (absent missing).symm

@[simp] theorem get_register (r : Registry) (d : Descriptor) (name : String) :
    (r.register d).2.get? name = if d.name = name then some d else r.get? name := by
  have other := get_unregister r d.name name
  unfold get? at other ⊢
  simp only [register, Table.get_insert]
  by_cases same : d.name = name
  next => simp [same]
  next => simpa [same] using other

theorem Coherent.namesIn_register {r : Registry} (coherent : r.Coherent) (d : Descriptor) (file : String) :
    (r.register d).2.namesIn file =
      if d.sourceFile = file then (r.namesIn file).filter (· ≠ d.name) ++ [d.name]
      else (r.namesIn file).filter (· ≠ d.name) := by
  have rest := coherent.namesIn_unregister d.name file
  unfold namesIn at rest ⊢
  simp only [register, Table.get_insert]
  by_cases same : d.sourceFile = file
  next =>
    subst same
    simp [rest, pushUnique]
  next => simpa [same] using rest

theorem Coherent.register {r : Registry} (coherent : r.Coherent) (d : Descriptor) :
    (r.register d).2.Coherent where
  named := by
    intro name e found
    rw [get_register] at found
    split at found
    next same =>
      cases found
      exact same
    next => exact coherent.named found
  owned := by
    intro name e found
    rw [get_register] at found
    rw [coherent.namesIn_register]
    split at found
    next same =>
      cases found
      simp [same]
    next differs =>
      have kept : name ∈ (r.namesIn e.sourceFile).filter (· ≠ d.name) := by
        rw [List.mem_filter]
        exact ⟨coherent.owned found, by simpa using Ne.symm differs⟩
      split
      next => exact List.mem_append_left _ kept
      next => exact kept
  listed := by
    intro file name member
    rw [coherent.namesIn_register] at member
    have kept (member : name ∈ (r.namesIn file).filter (· ≠ d.name)) :
        ∃ e, (r.register d).2.get? name = some e ∧ e.sourceFile = file := by
      rw [List.mem_filter] at member
      obtain ⟨member, differs⟩ := member
      obtain ⟨e, present, source⟩ := coherent.listed member
      have differs : d.name ≠ name := by
        rintro rfl
        simp at differs
      exact ⟨e, by rw [get_register, if_neg differs, present], source⟩
    split at member
    next source =>
      rw [List.mem_append, List.mem_singleton] at member
      rcases member with member | rfl
      next => exact kept member
      next => exact ⟨d, by simp, source⟩
    next => exact kept member
  distinct := by
    intro file
    have filtered := (coherent.distinct file).filter (· ≠ d.name)
    rw [coherent.namesIn_register]
    split
    next =>
      rw [List.nodup_append]
      refine ⟨filtered, by simp, ?_⟩
      intro other member new last
      rw [List.mem_singleton] at last
      rw [List.mem_filter] at member
      subst last
      simpa using member.2
    next => exact filtered

/-- The definition that counts if several classes have a name. -/
def lastDefined (classes : List Descriptor) (name : String) : Option Descriptor :=
  classes.reverse.find? (·.name = name)

theorem lastDefined_eq_some {classes : List Descriptor} {name : String} {d : Descriptor}
    (found : lastDefined classes name = some d) : d ∈ classes ∧ d.name = name := by
  have member := List.mem_of_find?_eq_some found
  have named := List.find?_some found
  exact ⟨by simpa using member, by simpa using named⟩

theorem lastDefined_isSome {classes : List Descriptor} {name : String} :
    (lastDefined classes name).isSome = true ↔ name ∈ classes.map (·.name) := by
  simp [lastDefined, List.find?_isSome]

theorem get_registerAll (r : Registry) (classes : List Descriptor) (name : String) :
    (classes.foldl (fun r d => (r.register d).2) r).get? name = (lastDefined classes name).or (r.get? name) := by
  unfold lastDefined
  induction classes generalizing r with
  | nil => simp
  | cons d rest ih =>
    rw [List.foldl_cons, ih, List.reverse_cons, List.find?_append, Option.or_assoc, get_register]
    by_cases same : d.name = name <;> simp [same]

theorem Coherent.registerAll {r : Registry} (coherent : r.Coherent) (classes : List Descriptor) :
    (classes.foldl (fun r d => (r.register d).2) r).Coherent := by
  induction classes generalizing r with
  | nil => exact coherent
  | cons d rest ih => exact ih (coherent.register d)

@[simp] theorem get_unregisterAll (r : Registry) (names : List String) (name : String) :
    (r.unregisterAll names).2.get? name = if name ∈ names then none else r.get? name := by
  induction names generalizing r with
  | nil => simp [unregisterAll]
  | cons first rest ih =>
    simp only [unregisterAll, ih, get_unregister, List.mem_cons]
    by_cases later : name ∈ rest
    next => simp [later]
    next =>
      by_cases same : first = name
      next => simp [same]
      next => simp [later, same, Ne.symm same]

theorem fst_unregisterAll (r : Registry) (names : List String) (distinct : names.Nodup) :
    (r.unregisterAll names).1 = names.filterMap r.get? := by
  induction names generalizing r with
  | nil => rfl
  | cons first rest ih =>
    rw [List.nodup_cons] at distinct
    have same : rest.filterMap (r.unregister first).2.get? = rest.filterMap r.get? := by
      apply List.filterMap_congr
      intro name member
      have differs : first ≠ name := fun same => distinct.1 (same ▸ member)
      rw [get_unregister, if_neg differs]
    simp only [unregisterAll, ih _ distinct.2, same, fst_unregister, List.filterMap_cons]
    cases r.get? first <;> rfl

theorem byFile_unregisterAll (r : Registry) (names : List String)
    (gone : ∀ name ∈ names, ∀ d, r.get? name = some d → r.byFile[d.sourceFile]? = none) :
    (r.unregisterAll names).2.byFile = r.byFile := by
  induction names generalizing r with
  | nil => rfl
  | cons first rest ih =>
    have step : (r.unregister first).2.byFile = r.byFile := by
      unfold unregister
      cases found : r.classes[first]? with
      | none => rfl
      | some d => simp [disown, gone first (by simp) d found]
    simp only [unregisterAll]
    rw [ih, step]
    intro name member d found
    rw [get_unregister] at found
    split at found
    next => cases found
    next =>
      rw [step]
      exact gone name (by simp [member]) d found

theorem Coherent.fst_removeFile {r : Registry} (coherent : r.Coherent) (file : String) :
    (r.removeFile file).1 = r.classesIn file :=
  fst_unregisterAll _ _ (coherent.distinct file)

theorem Coherent.get_removeFile {r : Registry} (coherent : r.Coherent) (file name : String) :
    (r.removeFile file).2.get? name = (r.get? name).filter (·.sourceFile ≠ file) := by
  unfold removeFile
  rw [get_unregisterAll]
  change (if name ∈ r.namesIn file then none else r.get? name) = _
  by_cases member : name ∈ r.namesIn file
  next =>
    obtain ⟨d, present, source⟩ := coherent.listed member
    simp [member, present, source, Option.filter_some]
  next =>
    cases found : r.get? name with
    | none => simp [member]
    | some d =>
      have differs : d.sourceFile ≠ file := fun same => member (same ▸ coherent.owned found)
      simp [member, differs, Option.filter_some]

theorem Coherent.byFile_removeFile {r : Registry} (coherent : r.Coherent) (file : String) :
    (r.removeFile file).2.byFile = r.byFile.erase file := by
  unfold removeFile
  rw [byFile_unregisterAll]
  intro name member d found
  have source : d.sourceFile = file := coherent.file_unique member found
  simp [source]

theorem Coherent.namesIn_removeFile {r : Registry} (coherent : r.Coherent) (file other : String) :
    (r.removeFile file).2.namesIn other = if file = other then [] else r.namesIn other := by
  unfold namesIn
  rw [coherent.byFile_removeFile]
  by_cases same : file = other <;> simp [same]

theorem Coherent.removeFile {r : Registry} (coherent : r.Coherent) (file : String) :
    (r.removeFile file).2.Coherent where
  named := by
    intro name d found
    rw [coherent.get_removeFile, Option.filter_eq_some_iff] at found
    exact coherent.named found.1
  owned := by
    intro name d found
    rw [coherent.get_removeFile, Option.filter_eq_some_iff] at found
    obtain ⟨found, differs⟩ := found
    have differs : file ≠ d.sourceFile := by
      rintro rfl
      simp at differs
    rw [coherent.namesIn_removeFile, if_neg differs]
    exact coherent.owned found
  listed := by
    intro other name member
    rw [coherent.namesIn_removeFile] at member
    split at member
    next => cases member
    next differs =>
      obtain ⟨d, present, source⟩ := coherent.listed member
      refine ⟨d, ?_, source⟩
      rw [coherent.get_removeFile, Option.filter_eq_some_iff]
      refine ⟨present, ?_⟩
      simpa [source] using Ne.symm differs
  distinct := by
    intro other
    rw [coherent.namesIn_removeFile]
    split
    next => simp
    next => exact coherent.distinct other

@[simp] theorem get_setImports (r : Registry) (name other : String) (imports : List String) :
    (r.setImports name imports).get? other =
      if name = other then (r.get? other).map ({ · with imports }) else r.get? other := by
  unfold setImports get?
  cases found : r.classes[name]? with
  | none =>
    by_cases same : name = other
    next =>
      subst same
      simp [found]
    next => simp [same]
  | some d =>
    by_cases same : name = other
    next =>
      subst same
      simp [found]
    next => simp [same]

@[simp] theorem byFile_setImports (r : Registry) (name : String) (imports : List String) :
    (r.setImports name imports).byFile = r.byFile := by
  unfold setImports
  split <;> rfl

@[simp] theorem alternates_setImports (r : Registry) (name : String) (imports : List String) :
    (r.setImports name imports).alternates = r.alternates := by
  unfold setImports
  split <;> rfl

theorem Coherent.of_same_files {r r' : Registry} (coherent : r.Coherent) (lists : r'.byFile = r.byFile)
    (same : ∀ name, (r'.get? name).map (fun d => (d.name, d.sourceFile)) =
      (r.get? name).map (fun d => (d.name, d.sourceFile))) : r'.Coherent := by
  have back {name : String} {d : Descriptor} (found : r'.get? name = some d) :
      ∃ e, r.get? name = some e ∧ e.name = d.name ∧ e.sourceFile = d.sourceFile := by
    have here := same name
    rw [found, Option.map_some, eq_comm, Option.map_eq_some_iff] at here
    obtain ⟨e, present, fields⟩ := here
    simp only [Prod.mk.injEq] at fields
    exact ⟨e, present, fields⟩
  have names (file : String) : r'.namesIn file = r.namesIn file := by rw [namesIn, lists, namesIn]
  refine ⟨?_, ?_, ?_, ?_⟩
  next =>
    intro name d found
    obtain ⟨e, present, sameName, _⟩ := back found
    rw [← sameName]
    exact coherent.named present
  next =>
    intro name d found
    obtain ⟨e, present, _, sameFile⟩ := back found
    rw [names, ← sameFile]
    exact coherent.owned present
  next =>
    intro file name member
    rw [names] at member
    obtain ⟨e, present, source⟩ := coherent.listed member
    have here := same name
    rw [present, Option.map_some, Option.map_eq_some_iff] at here
    obtain ⟨d, found, fields⟩ := here
    simp only [Prod.mk.injEq] at fields
    exact ⟨d, found, fields.2.trans source⟩
  next =>
    intro file
    rw [names]
    exact coherent.distinct file

theorem Coherent.setImports {r : Registry} (coherent : r.Coherent) (name : String) (imports : List String) :
    (r.setImports name imports).Coherent := by
  apply coherent.of_same_files (byFile_setImports r name imports)
  intro other
  rw [get_setImports]
  split
  next => cases r.get? other <;> rfl
  next => rfl

theorem Coherent.mem_classesIn {r : Registry} (coherent : r.Coherent) {file : String} {d : Descriptor} :
    d ∈ r.classesIn file ↔ r.get? d.name = some d ∧ d.sourceFile = file := by
  change d ∈ (r.namesIn file).filterMap r.get? ↔ _
  rw [List.mem_filterMap]
  constructor
  next =>
    rintro ⟨name, member, found⟩
    have named := coherent.named found
    subst named
    exact ⟨found, coherent.file_unique member found⟩
  next =>
    rintro ⟨found, rfl⟩
    exact ⟨d.name, coherent.owned found, found⟩

theorem Coherent.map_name_classesIn {r : Registry} (coherent : r.Coherent) (file : String) :
    (r.classesIn file).map (·.name) = r.namesIn file := by
  change ((r.namesIn file).filterMap r.get?).map (·.name) = _
  rw [List.map_filterMap]
  have each : ∀ name ∈ r.namesIn file, (r.get? name).map (·.name) = some name := by
    intro name member
    obtain ⟨d, present, _⟩ := coherent.listed member
    rw [present, Option.map_some, coherent.named present]
  rw [List.filterMap_congr each]
  exact List.filterMap_some

end ClassLinker.Registry
