import ClassLinker.Proofs.NameIndex

set_option autoImplicit false

namespace ClassLinker

/-- What the definition of a class says, without the imports that were found for it. -/
def Descriptor.bare (d : Descriptor) : Descriptor := { d with imports := [] }

@[simp] theorem Descriptor.bare_bare (d : Descriptor) : d.bare.bare = d.bare := rfl

theorem Descriptor.sourceFile_of_bare {d e : Descriptor} (same : d.bare = e.bare) :
    d.sourceFile = e.sourceFile := by
  have : d.bare.sourceFile = e.bare.sourceFile := by rw [same]
  exact this

namespace Registry

def outline (r : Registry) : Table Descriptor := r.classes.map fun _ d => d.bare

@[simp] theorem get_outline (r : Registry) (name : String) : r.outline[name]? = (r.get? name).map Descriptor.bare :=
  Table.get_map r.classes _ name

theorem size_outline (r : Registry) : r.outline.size = r.size := Std.ExtTreeMap.size_map

/-- Registries that differ at most in the imports of their classes. -/
structure Alike (r r' : Registry) : Prop where
  outline : r'.outline = r.outline
  alternates : r'.alternates = r.alternates
  names : ∀ file, r'.namesIn file = r.namesIn file

theorem Alike.refl (r : Registry) : r.Alike r := ⟨rfl, rfl, fun _ => rfl⟩

theorem Alike.symm {r r' : Registry} (alike : r.Alike r') : r'.Alike r :=
  ⟨alike.outline.symm, alike.alternates.symm, fun file => (alike.names file).symm⟩

theorem Alike.trans {a b c : Registry} (first : a.Alike b) (second : b.Alike c) : a.Alike c :=
  ⟨second.outline.trans first.outline, second.alternates.trans first.alternates,
    fun file => (second.names file).trans (first.names file)⟩

theorem Alike.get {r r' : Registry} (alike : r.Alike r') (name : String) :
    (r'.get? name).map Descriptor.bare = (r.get? name).map Descriptor.bare := by
  rw [← get_outline, ← get_outline, alike.outline]

theorem Alike.size {r r' : Registry} (alike : r.Alike r') : r'.size = r.size := by
  rw [← size_outline, ← size_outline, alike.outline]

theorem Alike.classesIn {r r' : Registry} (alike : r.Alike r') (file : String) :
    (r'.classesIn file).map Descriptor.bare = (r.classesIn file).map Descriptor.bare := by
  change ((r'.namesIn file).filterMap r'.get?).map _ = ((r.namesIn file).filterMap r.get?).map _
  rw [List.map_filterMap, List.map_filterMap, alike.names]
  exact List.filterMap_congr fun name _ => alike.get name

theorem setImports_alike (r : Registry) (name : String) (imports : List String) :
    r.Alike (r.setImports name imports) := by
  refine ⟨?_, by simp, fun file => by simp [namesIn]⟩
  apply Table.ext_get
  intro other
  rw [get_outline, get_outline, get_setImports]
  split
  next => cases r.get? other <;> rfl
  next => rfl

/-- What a further name leads to once classes have been added one after the other. -/
def leadAfter (kind : NameKind) (classes : List Descriptor) (key : String) (before : Option String) : Option String :=
  classes.foldl (fun target d => if key ∈ d.further kind then some d.name else target.filter (· ≠ d.name)) before

theorem Indexed.registerAll {r : Registry} (indexed : r.Indexed) (classes : List Descriptor) :
    (classes.foldl (fun r d => (r.register d).2) r).Indexed ∧ ∀ (kind : NameKind) (key : String),
      ((classes.foldl (fun r d => (r.register d).2) r).index kind)[key]? =
        leadAfter kind classes key (r.index kind)[key]? := by
  induction classes generalizing r with
  | nil => exact ⟨indexed, fun _ _ => rfl⟩
  | cons d rest ih =>
    obtain ⟨still, leads⟩ := ih (indexed.register d)
    refine ⟨still, fun kind key => ?_⟩
    rw [List.foldl_cons, leads]
    exact congrArg (leadAfter kind rest key) (indexed.get_register kind d key)

def Declares (kind : NameKind) (classes : List Descriptor) (key : String) : Prop :=
  ∃ d ∈ classes, key ∈ d.further kind

theorem leadAfter_declared {kind : NameKind} {classes : List Descriptor} {key : String}
    (declared : Declares kind classes key) (before other : Option String) :
    leadAfter kind classes key before = leadAfter kind classes key other := by
  induction classes generalizing before other with
  | nil =>
    obtain ⟨d, member, _⟩ := declared
    cases member
  | cons d rest ih =>
    by_cases own : key ∈ d.further kind
    next => simp [leadAfter, own]
    next =>
      obtain ⟨e, member, has⟩ := declared
      rcases List.mem_cons.mp member with rfl | later
      next => exact absurd has own
      next => exact ih ⟨e, later, has⟩ _ _

theorem leadAfter_undeclared {kind : NameKind} {classes : List Descriptor} {key : String}
    (undeclared : ¬ Declares kind classes key) (before : Option String) :
    leadAfter kind classes key before = before.filter (· ∉ classes.map (·.name)) := by
  induction classes generalizing before with
  | nil => cases before <;> simp [leadAfter, Option.filter_some]
  | cons d rest ih =>
    have own : key ∉ d.further kind := fun has => undeclared ⟨d, by simp, has⟩
    have later : ¬ Declares kind rest key := fun ⟨e, member, has⟩ => undeclared ⟨e, by simp [member], has⟩
    have step : leadAfter kind (d :: rest) key before = leadAfter kind rest key (before.filter (· ≠ d.name)) := by
      simp [leadAfter, own]
    rw [step, ih later, Option.filter_filter]
    congr 1
    funext target
    simp [not_or]

theorem leadAfter_none {kind : NameKind} {classes : List Descriptor} {key target : String}
    (found : leadAfter kind classes key none = some target) :
    Declares kind classes key ∧ target ∈ classes.map (·.name) := by
  have declared : Declares kind classes key := by
    by_contra undeclared
    rw [leadAfter_undeclared undeclared] at found
    cases found
  refine ⟨declared, ?_⟩
  have steps (before : Option String) (known : ∀ t, before = some t → t ∈ classes.map (·.name))
      (rest : List Descriptor) (inside : ∀ d ∈ rest, d ∈ classes) (lead : leadAfter kind rest key before = some target) :
      target ∈ classes.map (·.name) := by
    induction rest generalizing before with
    | nil => exact known target lead
    | cons d rest ih =>
      refine ih _ ?_ (fun e member => inside e (by simp [member])) lead
      intro t here
      simp only at here
      split at here
      next =>
        cases here
        exact List.mem_map_of_mem (inside d (by simp))
      next =>
        rw [Option.filter_eq_some_iff] at here
        exact known t here.1
  exact steps none (by simp) classes (fun d member => member) found

def setAllImports (r : Registry) (byClass : List (String × List String)) : Registry :=
  byClass.foldl (fun r (name, imports) => r.setImports name imports) r

theorem get_setAllImports (byClass : List (String × List String)) (r : Registry) (name : String) :
    (r.setAllImports byClass).get? name =
      match byClass.reverse.lookup name with
      | some imports => (r.get? name).map ({ · with imports })
      | none => r.get? name := by
  unfold setAllImports
  induction byClass generalizing r with
  | nil => simp
  | cons entry rest ih =>
    obtain ⟨key, paths⟩ := entry
    rw [List.foldl_cons, ih, List.reverse_cons, List.lookup_append, get_setImports]
    cases found : rest.reverse.lookup name with
    | some imports =>
      by_cases same : key = name
      next => cases r.get? name <;> simp [same]
      next => simp [same]
    | none =>
      by_cases same : key = name
      next => simp [same]
      next =>
        have differs : (name == key) = false := by simpa using Ne.symm same
        simp [same, List.lookup_cons, differs]

theorem setAllImports_alike (byClass : List (String × List String)) (r : Registry) :
    r.Alike (r.setAllImports byClass) := by
  unfold setAllImports
  induction byClass generalizing r with
  | nil => exact .refl r
  | cons entry rest ih => exact (setImports_alike r entry.1 entry.2).trans (ih _)

def replace (r : Registry) (path : String) (classes : List Descriptor) : Registry :=
  classes.foldl (fun r d => (r.register d).2) (r.removeFile path).2

def namesAfter (classes : List Descriptor) (file : String) (names : List String) : List String :=
  classes.foldl (fun names d => names.filter (· ≠ d.name) ++ if d.sourceFile = file then [d.name] else []) names

theorem namesAfter_foreign {classes : List Descriptor} {file : String}
    (foreign : ∀ d ∈ classes, d.sourceFile ≠ file) (names : List String) :
    namesAfter classes file names = names.filter (· ∉ classes.map (·.name)) := by
  induction classes generalizing names with
  | nil => simp [namesAfter]
  | cons d rest ih =>
    change namesAfter rest file (names.filter (· ≠ d.name) ++ if d.sourceFile = file then [d.name] else []) = _
    rw [ih (fun e member => foreign e (by simp [member])), if_neg (foreign d (by simp)), List.append_nil,
      List.filter_filter]
    congr 1
    funext name
    simp [not_or, Bool.and_comm]

theorem Coherent.namesIn_registerAll {r : Registry} (coherent : r.Coherent) (classes : List Descriptor)
    (file : String) :
    (classes.foldl (fun r d => (r.register d).2) r).namesIn file = namesAfter classes file (r.namesIn file) := by
  induction classes generalizing r with
  | nil => rfl
  | cons d rest ih =>
    rw [List.foldl_cons, ih (coherent.register d), coherent.namesIn_register]
    by_cases same : d.sourceFile = file <;> simp [namesAfter, same]

structure Sound (r : Registry) : Prop where
  coherent : r.Coherent
  indexed : r.Indexed

theorem sound_empty : Sound empty := ⟨coherent_empty, indexed_empty⟩

section
variable {r : Registry} (sound : r.Sound) (path : String)
include sound

theorem Sound.removeFile : (r.removeFile path).2.Sound :=
  ⟨sound.coherent.removeFile path, sound.indexed.removeFile path⟩

theorem Sound.setImports (name : String) (imports : List String) : (r.setImports name imports).Sound :=
  ⟨sound.coherent.setImports name imports, sound.indexed.setImports name imports⟩

theorem Sound.setAllImports (byClass : List (String × List String)) : (r.setAllImports byClass).Sound := by
  unfold Registry.setAllImports
  induction byClass generalizing r with
  | nil => exact sound
  | cons entry rest ih => exact ih (sound.setImports entry.1 entry.2)

variable (classes : List Descriptor)

theorem Sound.replace : (r.replace path classes).Sound :=
  ⟨(sound.coherent.removeFile path).registerAll classes, ((sound.removeFile path).indexed.registerAll classes).1⟩

theorem Sound.get_replace (name : String) :
    (r.replace path classes).get? name =
      (lastDefined classes name).or ((r.get? name).filter (·.sourceFile ≠ path)) := by
  unfold Registry.replace
  rw [get_registerAll, sound.coherent.get_removeFile]

theorem Sound.index_replace (kind : NameKind) (key : String) :
    ((r.replace path classes).index kind)[key]? =
      leadAfter kind classes key ((r.index kind)[key]?.filter (· ∉ r.namesIn path)) := by
  unfold Registry.replace
  rw [((sound.removeFile path).indexed.registerAll classes).2, sound.indexed.get_removeFile]

theorem Sound.alternates_replace (key : String) :
    (r.replace path classes).alternates[key]? =
      leadAfter .alternate classes key (r.alternates[key]?.filter (· ∉ r.namesIn path)) :=
  sound.index_replace path classes .alternate key

theorem Sound.namesIn_replace (file : String) :
    (r.replace path classes).namesIn file =
      namesAfter classes file (if path = file then [] else r.namesIn file) := by
  unfold Registry.replace
  rw [(sound.coherent.removeFile path).namesIn_registerAll, sound.coherent.namesIn_removeFile]

end

theorem Alike.replace {r r' : Registry} (alike : r.Alike r') (sound : r.Sound) (sound' : r'.Sound) (path : String)
    (classes : List Descriptor) : (r.replace path classes).Alike (r'.replace path classes) where
  outline := by
    apply Table.ext_get
    intro name
    rw [get_outline, get_outline, sound.get_replace, sound'.get_replace]
    cases lastDefined classes name with
    | some d => rfl
    | none =>
      have same := alike.get name
      cases known : r.get? name with
      | none =>
        rw [known, Option.map_none, Option.map_eq_none_iff] at same
        simp [same]
      | some d =>
        rw [known, Option.map_some, Option.map_eq_some_iff] at same
        obtain ⟨e, known', same⟩ := same
        have source := Descriptor.sourceFile_of_bare same
        rw [known']
        by_cases own : d.sourceFile = path <;> simp [Option.filter_some, source, own, same]
  alternates := by
    apply Table.ext_get
    intro key
    rw [sound.alternates_replace, sound'.alternates_replace, alike.alternates, alike.names]
  names := by
    intro file
    rw [sound.namesIn_replace, sound'.namesIn_replace, alike.names]

section
variable {r : Registry} (sound : r.Sound) {path : String} {classes : List Descriptor}
include sound

theorem Sound.mem_names_of_replace {name : String} (member : name ∈ (r.replace path classes).namesIn path) :
    name ∈ classes.map (·.name) := by
  obtain ⟨d, found, source⟩ := (sound.replace path classes).coherent.listed member
  rw [← lastDefined_isSome]
  rw [sound.get_replace, Option.or_eq_some_iff] at found
  rcases found with new | ⟨_, old⟩
  next => rw [new, Option.isSome_some]
  next =>
    rw [Option.filter_eq_some_iff] at old
    simp [source] at old

theorem Sound.index_replace_again (kind : NameKind) (key : String) :
    (((r.replace path classes).replace path classes).index kind)[key]? = ((r.replace path classes).index kind)[key]? := by
  rw [(sound.replace path classes).index_replace, sound.index_replace]
  by_cases declared : Declares kind classes key
  next => exact leadAfter_declared declared _ _
  next =>
    -- the names that are removed first are among those that are filtered out in any case
    rw [leadAfter_undeclared declared, leadAfter_undeclared declared]
    simp only [Option.filter_filter]
    congr 1
    funext target
    by_cases member : target ∈ classes.map (·.name)
    next => simp [member]
    next =>
      have absent : target ∉ (r.replace path classes).namesIn path := fun here =>
        member (sound.mem_names_of_replace here)
      simp [member, absent]

theorem Sound.namesIn_replace_again (own : ∀ d ∈ classes, d.sourceFile = path) (file : String) :
    ((r.replace path classes).replace path classes).namesIn file = (r.replace path classes).namesIn file := by
  rw [(sound.replace path classes).namesIn_replace, sound.namesIn_replace]
  split
  next => rfl
  next differs =>
    have foreign : ∀ d ∈ classes, d.sourceFile ≠ file := fun d member same => differs ((own d member).symm.trans same)
    rw [namesAfter_foreign foreign, namesAfter_foreign foreign, List.filter_filter]
    simp

theorem Sound.replace_again (own : ∀ d ∈ classes, d.sourceFile = path) :
    ((r.replace path classes).replace path classes).Alike (r.replace path classes) where
  outline := by
    apply Table.ext_get
    intro name
    rw [get_outline, get_outline, (sound.replace path classes).get_replace, sound.get_replace]
    cases lastDefined classes name with
    | some d => rfl
    | none => simp [Option.filter_filter]
  alternates := by
    apply Table.ext_get
    intro key
    exact (sound.index_replace_again .alternate key).symm
  names := fun file => (sound.namesIn_replace_again own file).symm

end

end Registry

end ClassLinker
