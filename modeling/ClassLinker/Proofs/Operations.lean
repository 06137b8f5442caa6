import ClassLinker.Proofs.Definitions
import ClassLinker.Proofs.Outline
import ClassLinker.Proofs.Runs
import ClassLinker.Proofs.Walk

set_option autoImplicit false

namespace ClassLinker

namespace Session

theorem analyse_classes {s : Session} {path source : String} {a : Analysis} (analysed : s.analyse path source = .ok a) :
    ∀ d ∈ a.classes.map (·.descriptor), d.sourceFile = path ∧ d.imports = [] := by
  intro d member
  rw [List.mem_map] at member
  obtain ⟨c, member, rfl⟩ := member
  unfold analyse at analysed
  cases parsed : Script.Tree.parse path source with
  | error problem =>
    rw [parsed] at analysed
    cases analysed
  | ok tree =>
    rw [parsed] at analysed
    cases analysed
    exact ClassDefinition.fresh_of_mem_all member

theorem adopt_classes {s : Session} {path source : String} {a : Analysis} (diagnostics : List Diagnostic)
    (sound : s.registry.Sound) (analysed : s.analyse path source = .ok a) {name : String} {d : Descriptor}
    (found : (s.adopt path source a diagnostics).registry.get? name = some d) :
    (d.sourceFile = path ∧ d.imports = []) ∨ (d.sourceFile ≠ path ∧ s.registry.get? name = some d) := by
  have here : (s.registry.replace path (a.classes.map (·.descriptor))).get? name = some d := found
  rw [sound.get_replace, Option.or_eq_some_iff] at here
  rcases here with new | ⟨_, old⟩
  next => exact .inl (analyse_classes analysed d (Registry.lastDefined_eq_some new).1)
  next =>
    rw [Option.filter_eq_some_iff] at old
    exact .inr ⟨by simpa using old.2, old.1⟩

def existingImports (s : Session) (path : String) : List String :=
  (s.cache[path]?.map (·.existingImports)).getD []

theorem resolveImports_resolves (s : Session) (w : Workspace) (path : String) :
    (s.surroundings w).Resolves path (s.registry.classesIn path) (s.existingImports path) (s.claims.release path)
      (s.resolveImports w path).1 (s.resolveImports w path).2.claims :=
  (s.surroundings w).resolveFile_resolves path (s.registry.classesIn path) (s.existingImports path)
    (s.claims.release path)

theorem resolveImports_registry (s : Session) (w : Workspace) (path : String) :
    (s.resolveImports w path).2.registry = s.registry.setAllImports (s.resolveImports w path).1.byClass := rfl

theorem resolveImports_missing (s : Session) (w : Workspace) (path name : String) :
    (s.resolveImports w path).2.missing[name]? =
      (s.resolveImports w path).1.missing[name]?.or
        (if name ∈ (s.registry.classesIn path).map (·.name) then none else s.missing[name]?) := by
  rw [← get_forgetMissing]
  exact Table.get_overlay _ _ name

theorem resolveImports_classes {s : Session} (sound : s.registry.Sound) (w : Workspace) (path : String)
    {name : String} {d : Descriptor} (found : (s.resolveImports w path).2.registry.get? name = some d) :
    (d.sourceFile = path ∧ (name, d.imports) ∈ (s.resolveImports w path).1.byClass) ∨
      (d.sourceFile ≠ path ∧ s.registry.get? name = some d) := by
  have names := (s.resolveImports_resolves w path).names
  rw [sound.coherent.map_name_classesIn] at names
  rw [resolveImports_registry, Registry.get_setAllImports] at found
  cases own : (s.resolveImports w path).1.byClass.reverse.lookup name with
  | some imports =>
    rw [own] at found
    have member : (name, imports) ∈ (s.resolveImports w path).1.byClass := by
      rw [List.lookup_eq_some_iff] at own
      obtain ⟨before, after, split, _⟩ := own
      rw [← List.mem_reverse, split]
      simp
    have listed : name ∈ s.registry.namesIn path := names ▸ List.mem_map_of_mem member
    rw [Option.map_eq_some_iff] at found
    obtain ⟨old, present, rfl⟩ := found
    have source : old.sourceFile = path := sound.coherent.file_unique listed present
    exact .inl ⟨source, member⟩
  | none =>
    rw [own] at found
    right
    refine ⟨?_, found⟩
    rintro rfl
    have listed := sound.coherent.owned found
    rw [← names, List.mem_map] at listed
    obtain ⟨entry, member, rfl⟩ := listed
    rw [List.lookup_eq_none_iff] at own
    have := own entry (by simpa using member)
    simp at this

theorem Move.sound {w : Workspace} {s s' : Session} (move : Move w s s') (sound : s.registry.Sound) :
    s'.registry.Sound := by
  cases move with
  | reset => exact Registry.sound_empty
  | refuse _ _ => exact sound
  | adopt _ _ => exact sound.replace _ _
  | resolve _ => exact sound.setAllImports _
  | serve _ _ => exact sound.setAllImports _
  | mark _ _ => exact sound
  | forget => exact sound.removeFile _

theorem run_sound {s : Session} (sound : s.registry.Sound) (calls : List Call) : (s.run calls).registry.Sound :=
  run_induction (fun _ _ _ => Move.sound) sound calls

def blank (root : String) (config : Config) (included excluded : List Glob) : Session where
  root := root
  config := config
  resolver := .ofConfig config
  included := included
  excluded := excluded
  registry := .empty
  cache := ∅
  claims := .ofPolicy config.dedup
  missing := ∅
  generation := 0

theorem create_eq_blank {root : String} {config : Config} {s : Session} :
    create root config = .ok s ↔ ∃ included excluded, globs config.included = .ok included ∧
      globs config.excluded = .ok excluded ∧ s = blank root config included excluded := by
  unfold create
  cases globs config.included with
  | error problem => simp [bind, Except.bind]
  | ok included =>
    cases globs config.excluded with
    | error problem => simp [bind, Except.bind]
    | ok excluded =>
      constructor
      next =>
        intro created
        cases created
        exact ⟨included, excluded, rfl, rfl, rfl⟩
      next =>
        rintro ⟨_, _, ⟨⟩, ⟨⟩, rfl⟩
        rfl

theorem create_eq {root : String} {config : Config} {s : Session} (created : create root config = .ok s) :
    s.config = config ∧ s.registry = .empty ∧ s.cache = ∅ ∧ s.claims = .ofPolicy config.dedup ∧ s.missing = ∅ := by
  obtain ⟨included, excluded, _, _, rfl⟩ := create_eq_blank.mp created
  exact ⟨rfl, rfl, rfl, rfl, rfl⟩

theorem create_sound {root : String} {config : Config} {s : Session} (created : create root config = .ok s) :
    s.registry.Sound := by
  rw [(create_eq created).2.1]
  exact Registry.sound_empty

end Session

end ClassLinker
