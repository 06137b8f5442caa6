import ClassLinker.Proofs.Registry

set_option autoImplicit false

namespace ClassLinker

inductive NameKind where
  | alternate
  | short

def Descriptor.further (d : Descriptor) : NameKind → List String
  | .alternate => d.alternateNames
  | .short => d.shortName.toList

namespace Registry

def index (r : Registry) : NameKind → Table String
  | .alternate => r.alternates
  | .short => r.aliases

structure Indexed (r : Registry) : Prop where
  declared : ∀ (kind : NameKind) {key target : String}, (r.index kind)[key]? = some target →
    ∃ d, r.get? target = some d ∧ key ∈ d.further kind

theorem indexed_empty : Indexed empty := by
  constructor
  intro kind key target found
  cases kind <;> simp [index, empty] at found

theorem index_unregister (r : Registry) (kind : NameKind) (name : String) :
    (r.unregister name).2.index kind =
      if (r.get? name).isSome then withoutTarget (r.index kind) name else r.index kind := by
  unfold unregister get?
  cases r.classes[name]? <;> cases kind <;> rfl

theorem index_register (r : Registry) (kind : NameKind) (d : Descriptor) :
    (r.register d).2.index kind =
      (d.further kind).foldl (fun index key => index.insert key d.name) ((r.unregister d.name).2.index kind) := by
  cases kind with
  | alternate => rfl
  | short => cases short : d.shortName <;> simp [register, index, Descriptor.further, short]

@[simp] theorem index_setImports (r : Registry) (kind : NameKind) (name : String) (imports : List String) :
    (r.setImports name imports).index kind = r.index kind := by
  unfold setImports
  split <;> cases kind <;> rfl

theorem get_insertTarget (keys : List String) (target key : String) (index : Table String) :
    (keys.foldl (fun index key => index.insert key target) index)[key]? =
      if key ∈ keys then some target else index[key]? := by
  induction keys generalizing index with
  | nil => simp
  | cons first rest ih =>
    rw [List.foldl_cons, ih, Table.get_insert]
    by_cases later : key ∈ rest
    next => simp [later]
    next =>
      by_cases same : first = key
      next => simp [same]
      next => simp [later, same, Ne.symm same]

section
variable {r : Registry} (indexed : r.Indexed)
include indexed

theorem Indexed.get_unregister (kind : NameKind) (name key : String) :
    ((r.unregister name).2.index kind)[key]? = (r.index kind)[key]?.filter (· ≠ name) := by
  rw [index_unregister]
  split
  next => simp [withoutTarget]
  next unknown =>
    -- nothing leads to a class that is not there
    cases lead : (r.index kind)[key]? with
    | none => rfl
    | some target =>
      have differs : target ≠ name := by
        rintro rfl
        obtain ⟨d, known, _⟩ := indexed.declared kind lead
        simp [known] at unknown
      simp [differs, Option.filter_some]

theorem Indexed.unregister (name : String) : (r.unregister name).2.Indexed := by
  constructor
  intro kind key target found
  rw [indexed.get_unregister, Option.filter_eq_some_iff] at found
  have differs : name ≠ target := by
    rintro rfl
    simp at found
  rw [Registry.get_unregister, if_neg differs]
  exact indexed.declared kind found.1

theorem Indexed.get_register (kind : NameKind) (d : Descriptor) (key : String) :
    ((r.register d).2.index kind)[key]? =
      if key ∈ d.further kind then some d.name else (r.index kind)[key]?.filter (· ≠ d.name) := by
  rw [index_register, get_insertTarget, indexed.get_unregister]

theorem Indexed.register (d : Descriptor) : (r.register d).2.Indexed := by
  constructor
  intro kind key target found
  rw [indexed.get_register] at found
  rw [Registry.get_register]
  split at found
  next own =>
    cases found
    exact ⟨d, by simp, own⟩
  next =>
    rw [Option.filter_eq_some_iff] at found
    have differs : d.name ≠ target := by
      rintro rfl
      simp at found
    rw [if_neg differs]
    exact indexed.declared kind found.1

theorem Indexed.unregisterAll (names : List String) :
    (r.unregisterAll names).2.Indexed ∧ ∀ (kind : NameKind) (key : String),
      ((r.unregisterAll names).2.index kind)[key]? = (r.index kind)[key]?.filter (· ∉ names) := by
  induction names generalizing r with
  | nil =>
    refine ⟨indexed, fun kind key => ?_⟩
    cases found : (r.index kind)[key]? <;> simp [Registry.unregisterAll, found, Option.filter_some]
  | cons name rest ih =>
    obtain ⟨still, leads⟩ := ih (indexed.unregister name)
    refine ⟨still, fun kind key => ?_⟩
    rw [Registry.unregisterAll]
    simp only
    rw [leads, indexed.get_unregister, Option.filter_filter]
    congr 1
    funext target
    simp [not_or]

theorem Indexed.withByFile (byFile : Table (List String)) : Indexed { r with byFile } := by
  constructor
  intro kind
  cases kind with
  | alternate => exact indexed.declared .alternate
  | short => exact indexed.declared .short

theorem Indexed.removeFile (file : String) : (r.removeFile file).2.Indexed :=
  ((indexed.withByFile (r.byFile.erase file)).unregisterAll (r.namesIn file)).1

theorem Indexed.get_removeFile (kind : NameKind) (file key : String) :
    ((r.removeFile file).2.index kind)[key]? = (r.index kind)[key]?.filter (· ∉ r.namesIn file) := by
  unfold Registry.removeFile
  -- the list of the file is taken out before its names are, which the indexes do not notice
  rw [((indexed.withByFile (r.byFile.erase file)).unregisterAll _).2]
  cases kind <;> rfl

theorem Indexed.setImports (name : String) (imports : List String) : (r.setImports name imports).Indexed := by
  constructor
  intro kind key target found
  rw [index_setImports] at found
  obtain ⟨d, known, own⟩ := indexed.declared kind found
  rw [get_setImports]
  split
  next =>
    rw [known]
    exact ⟨_, rfl, by cases kind <;> exact own⟩
  next => exact ⟨d, known, own⟩

end

end Registry

end ClassLinker
