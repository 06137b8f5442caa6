import ClassLinker.Proofs.Operations
import ClassLinker.Proofs.Runs

set_option autoImplicit false

namespace ClassLinker

structure Workspace.SameFiles (w w' : Workspace) : Prop where
  expand : ∀ pattern, w'.expand pattern = w.expand pattern
  hasFile : ∀ path, w'.hasFile path = w.hasFile path

theorem Workspace.SameFiles.refl (w : Workspace) : w.SameFiles w := ⟨fun _ => rfl, fun _ => rfl⟩

theorem Workspace.SameFiles.resolveCanonical {w w' : Workspace} (files : w.SameFiles w') (r : Resolver)
    (name : String) : r.resolveCanonical w' name = r.resolveCanonical w name := by
  unfold Resolver.resolveCanonical Resolver.expandStar
  simp only [files.expand]

namespace Surroundings

structure Alike (s s' : Surroundings) : Prop where
  registry : s.registry.Alike s'.registry
  resolver : s'.resolver = s.resolver
  files : s.workspace.SameFiles s'.workspace
  config : s'.config = s.config

section
variable {s s' : Surroundings} (alike : s.Alike s')
include alike

theorem Alike.lead (reference : String) : s'.lead reference = s.lead reference := by
  have canonical (name : String) : s'.leadOfCanonical name = s.leadOfCanonical name := by
    have known := alike.registry.get name
    unfold leadOfCanonical isDisabled
    rw [alike.resolver, alike.files.resolveCanonical]
    cases present : s.registry.get? name with
    | none =>
      rw [present, Option.map_none, Option.map_eq_none_iff] at known
      rw [known]
    | some d =>
      rw [present, Option.map_some, Option.map_eq_some_iff] at known
      obtain ⟨e, known, same⟩ := known
      simp only [known, Descriptor.sourceFile_of_bare same]
  unfold Surroundings.lead
  rw [alike.registry.alternates]
  simp only [canonical]

theorem Alike.assetsOf (path : String) : s'.assetsOf path = s.assetsOf path := by
  unfold Surroundings.assetsOf
  rw [alike.config, funext alike.files.hasFile]

end

end Surroundings

namespace Walk

theorem visit_bare (s : Surroundings) (n : Nat) (direct : Bool) (d : Descriptor) (w : Walk) :
    visit s n direct d.bare w = visit s n direct d w := by
  cases n <;> rfl

theorem foldl_bare {f : Walk → Descriptor → Walk} (bare : ∀ w d, f w d.bare = f w d) {xs ys : List Descriptor}
    (same : ys.map Descriptor.bare = xs.map Descriptor.bare) (w : Walk) : ys.foldl f w = xs.foldl f w := by
  have drop (list : List Descriptor) : list.foldl f w = (list.map Descriptor.bare).foldl f w := by
    rw [List.foldl_map]
    simp only [bare]
  rw [drop ys, drop xs, same]

section
variable {s s' : Surroundings} (alike : s.Alike s')
include alike

theorem emit_eq {visit : Descriptor → Walk → Walk} (bare : ∀ d w, visit d.bare w = visit d w) (w : Walk)
    (path : String) : emit s' visit w path = emit s visit w path := by
  by_cases met : path ∈ w.marks
  next => rw [emit_met met, emit_met met]
  next =>
    have imported (w : Walk) : importPath s' w path = importPath s w path := by
      unfold importPath
      rw [alike.assetsOf]
    rw [emit_unmet met, emit_unmet met, imported, foldl_bare _ (alike.registry.classesIn path)]
    intro w d
    unfold followOnce
    rw [bare]
    rfl

theorem visit_eq (n : Nat) (direct : Bool) (d : Descriptor) (w : Walk) :
    visit s' n direct d w = visit s n direct d w := by
  induction n generalizing direct d w with
  | zero => rfl
  | succ n ih =>
    have emitted : emit s' (visit s' n false) = emit s (visit s n false) := by
      funext w path
      rw [show visit s' n false = visit s n false from funext fun d => funext fun w => ih false d w]
      exact emit_eq alike (visit_bare s n false) w path
    unfold visit
    simp only [alike.lead, emitted]

theorem visitOwn_eq (w : Walk) (d : Descriptor) : visitOwn s' w d = visitOwn s w d := by
  unfold visitOwn
  rw [visit_eq alike, alike.registry.size]

end

end Walk

theorem Surroundings.Alike.resolveFile {s s' : Surroundings} (alike : s.Alike s') (file : String)
    {classes classes' : List Descriptor} (same : classes'.map Descriptor.bare = classes.map Descriptor.bare)
    (existing : List String) (claims : Claims) :
    s'.resolveFile file classes' existing claims = s.resolveFile file classes existing claims := by
  have names : classes'.map (·.name) = classes.map (·.name) := by
    have := congrArg (List.map (·.name)) same
    simpa [Function.comp_def, Descriptor.bare] using this
  have visits : Walk.visitOwn s' = Walk.visitOwn s := by
    funext w d
    exact Walk.visitOwn_eq alike w d
  have walks (w : Walk) : classes'.foldl (Walk.visitOwn s) w = classes.foldl (Walk.visitOwn s) w :=
    Walk.foldl_bare (fun w d => Walk.visit_bare s _ true d _) same w
  unfold Surroundings.resolveFile
  simp only [names, visits, walks]

theorem Claims.ext_owner {c c' : Claims} (policy : c.policy = c'.policy)
    (owners : ∀ path, c.owner? path = c'.owner? path) : c = c' := by
  cases c
  cases c'
  cases policy
  congr
  exact Table.ext_get owners

theorem Claims.Granted.release {c c' : Claims} {file : String} {paths : List String}
    (granted : (c.release file).Granted c' file paths) : c'.release file = c.release file := by
  -- A file that gives back all it claimed leaves the claims as they were before.
  have twice (path : String) : ((c.release file).owner? path).filter (· ≠ file) = (c.release file).owner? path := by
    simp [Option.filter_filter]
  apply Claims.ext_owner
  next => exact granted.policy
  next =>
    intro path
    rw [owner_release, ← twice path]
    cases policy : c.policy with
    | file => rw [granted.shared policy]
    | global =>
      rw [granted.owner policy]
      split
      next member =>
        -- the file has given back its paths, so that nobody had this one
        have free : (c.release file).owner? path = none := by
          cases owned : (c.release file).owner? path with
          | none => rfl
          | some other =>
            have same := granted.free policy path member other owned
            rw [owner_release, Option.filter_eq_some_iff] at owned
            simp [same] at owned
        simp [free, Option.filter_some]
      next => rfl

namespace Session

theorem surroundings_alike {s s' : Session} {w w' : Workspace} (settings : SameSettings s s')
    (registry : s.registry.Alike s'.registry) (files : w.SameFiles w') :
    (s.surroundings w).Alike (s'.surroundings w') :=
  ⟨registry, settings.resolver, files, settings.config⟩

theorem resolveImports_eq {s s' : Session} {w w' : Workspace} {path : String} (settings : SameSettings s s')
    (registry : s.registry.Alike s'.registry) (files : w.SameFiles w')
    (existing : s'.existingImports path = s.existingImports path)
    (claims : s'.claims.release path = s.claims.release path) :
    (s'.resolveImports w' path).1 = (s.resolveImports w path).1 := by
  change ((s'.surroundings w').resolveFile path (s'.registry.classesIn path) (s'.existingImports path)
    (s'.claims.release path)).1 = ((s.surroundings w).resolveFile path (s.registry.classesIn path)
    (s.existingImports path) (s.claims.release path)).1
  rw [existing, claims, (surroundings_alike settings registry files).resolveFile path (registry.classesIn path)]

/-- What the outcome for a file depends on. -/
structure SameView (path : String) (s s' : Session) : Prop where
  settings : SameSettings s s'
  registry : s.registry.Alike s'.registry
  claims : s'.claims.release path = s.claims.release path

theorem SameView.refl (path : String) (s : Session) : SameView path s s := ⟨.refl s, .refl _, rfl⟩

theorem SameView.trans {path : String} {a b c : Session} (first : SameView path a b) (second : SameView path b c) :
    SameView path a c :=
  ⟨first.settings.trans second.settings, first.registry.trans second.registry, second.claims.trans first.claims⟩

def imports (s : Session) (w : Workspace) (path source : String) (a : Analysis) : ResolvedImports :=
  ((s.adopt path source a []).resolveImports w path).1

theorem adopt_existing (s : Session) (path source : String) (a : Analysis) (diagnostics : List Diagnostic) :
    (s.adopt path source a diagnostics).existingImports path = a.existing := by
  simp [existingImports, adopt]

theorem SameView.imports {path : String} {s s' : Session} (same : SameView path s s') (sound : s.registry.Sound)
    (sound' : s'.registry.Sound) {w w' : Workspace} (files : w.SameFiles w') (source : String) (a : Analysis) :
    s'.imports w' path source a = s.imports w path source a := by
  have settings : SameSettings (s.adopt path source a []) (s'.adopt path source a []) :=
    ⟨same.settings.root, same.settings.config, same.settings.resolver, same.settings.included,
      same.settings.excluded⟩
  apply resolveImports_eq settings _ files
  next => rw [adopt_existing, adopt_existing]
  next => exact same.claims
  next => exact same.registry.replace sound sound' path _

theorem resolveImports_sameView (s : Session) (w : Workspace) (path : String) :
    SameView path s (s.resolveImports w path).2 where
  settings := ⟨rfl, rfl, rfl, rfl, rfl⟩
  registry := Registry.setAllImports_alike _ _
  claims := (s.resolveImports_resolves w path).granted.release

theorem imports_again {s : Session} (sound : s.registry.Sound) (w : Workspace) {path source : String} {a : Analysis}
    (analysed : s.analyse path source = .ok a) :
    ((s.adopt path source a []).resolveImports w path).2.imports w path source a = s.imports w path source a := by
  have own : ∀ d ∈ a.classes.map (·.descriptor), d.sourceFile = path :=
    fun d member => (analyse_classes analysed d member).1
  have adopted : (s.adopt path source a []).registry.Sound := sound.replace path _
  have resolved : ((s.adopt path source a []).resolveImports w path).2.registry.Sound := adopted.setAllImports _
  rw [(resolveImports_sameView _ w path).imports adopted resolved (.refl w)]
  apply resolveImports_eq _ _ (.refl w)
  next => rw [adopt_existing, adopt_existing]
  next => rfl
  next => exact ⟨rfl, rfl, rfl, rfl, rfl⟩
  next => exact (sound.replace_again own).symm

end Session

end ClassLinker
