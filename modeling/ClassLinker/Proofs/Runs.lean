import Mathlib.Logic.Relation
import ClassLinker.Proofs.Table
import ClassLinker.Session.Change
import ClassLinker.Session.Transform

set_option autoImplicit false

namespace ClassLinker

open Relation

inductive Call where
  | discover (w : Workspace)
  | transform (w : Workspace) (id source : String)
  | fileChanged (w : Workspace) (id : String) (change : FileChange)

structure FileRecord.Marks (old new : FileRecord) : Prop where
  path : new.path = old.path
  fingerprint : new.fingerprint = old.fingerprint
  definedClasses : new.definedClasses = old.definedClasses
  existingImports : new.existingImports = old.existingImports
  stored : new.state = .cached → new = old

theorem FileRecord.Marks.refl (r : FileRecord) : r.Marks r := ⟨rfl, rfl, rfl, rfl, fun _ => rfl⟩

theorem Cache.marks_dropOutput (r : FileRecord) : r.Marks (Cache.dropOutput r) := by
  unfold Cache.dropOutput
  split
  next => exact ⟨rfl, rfl, rfl, rfl, by simp⟩
  next => exact .refl r

theorem Cache.update_eq_map (cache : Cache) (path : String) (f : FileRecord → FileRecord) :
    cache.update path f = cache.map fun other r => if path = other then f r else r := by
  apply Table.ext_get
  intro other
  rw [get_update, Table.get_map]
  by_cases same : path = other <;> simp [same]

theorem Cache.update_update (cache : Cache) (path : String) (f g : FileRecord → FileRecord) :
    (cache.update path f).update path g = cache.update path fun r => g (f r) := by
  apply Table.ext_get
  intro other
  by_cases same : path = other <;> simp [same, Function.comp_def]

namespace Session

def after (s : Session) : Call → Session
  | .discover w => (s.discover w).2
  | .transform w id source => (s.transform w id source).2
  | .fileChanged w id change => (s.fileChanged w id change).2

theorem after_transform (s : Session) (w : Workspace) (id source : String) :
    s.after (.transform w id source) = (s.transform w id source).2 := rfl

def run (s : Session) (calls : List Call) : Session := calls.foldl after s

@[simp] theorem run_nil (s : Session) : s.run [] = s := rfl

@[simp] theorem run_cons (s : Session) (call : Call) (calls : List Call) :
    s.run (call :: calls) = (s.after call).run calls := rfl

theorem run_append (s : Session) (calls more : List Call) : s.run (calls ++ more) = (s.run calls).run more :=
  List.foldl_append

def Unserved (s : Session) (path : String) : Prop :=
  ∀ r, s.cache[path]? = some r → r.state ≠ .cached

def invalidated (s : Session) (path : String) : Session := { s with cache := s.cache.invalidate path }

def served (s : Session) (w : Workspace) (path source : String) (a : Analysis) : Session :=
  let (found, s) := s.resolveImports w path
  let output := s.render path source a found
  { s with cache := s.cache.update path fun r =>
      { r with diagnostics := output.diagnostics, output := some output, state := .cached } }

inductive Move (w : Workspace) : Session → Session → Prop where
  | reset (s : Session) : Move w s { s.cleared with generation := s.generation + 1 }
  | refuse {s : Session} {path source : String} {problem : Problem} (classes : List String)
      (refused : s.analyse path source = .error problem) :
      Move w s { s with cache := s.cache.put (failedRecord path source problem classes) }
  | adopt {s : Session} {path source : String} {a : Analysis} (diagnostics : List Diagnostic)
      (analysed : s.analyse path source = .ok a) : Move w s (s.adopt path source a diagnostics)
  | resolve {s : Session} {path : String} (unserved : s.Unserved path) : Move w s (s.resolveImports w path).2
  | serve {s : Session} {path source : String} {a : Analysis} (analysed : s.analyse path source = .ok a)
      (recorded : s.cache[path]?.map (fun r => (r.fingerprint, r.state)) =
        some (Digest.fingerprint source, .classesExtracted)) : Move w s (s.served w path source a)
  | mark {s : Session} (f : String → FileRecord → FileRecord) (marks : ∀ path r, FileRecord.Marks r (f path r)) :
      Move w s { s with cache := s.cache.map f }
  | forget (s : Session) (path : String) : Move w s (s.forget path)

structure SameSettings (s s' : Session) : Prop where
  root : s'.root = s.root
  config : s'.config = s.config
  resolver : s'.resolver = s.resolver
  included : s'.included = s.included
  excluded : s'.excluded = s.excluded

theorem SameSettings.refl (s : Session) : SameSettings s s := ⟨rfl, rfl, rfl, rfl, rfl⟩

theorem SameSettings.symm {s s' : Session} (same : SameSettings s s') : SameSettings s' s :=
  ⟨same.root.symm, same.config.symm, same.resolver.symm, same.included.symm, same.excluded.symm⟩

theorem SameSettings.trans {a b c : Session} (first : SameSettings a b) (second : SameSettings b c) :
    SameSettings a c :=
  ⟨second.root.trans first.root, second.config.trans first.config, second.resolver.trans first.resolver,
    second.included.trans first.included, second.excluded.trans first.excluded⟩

section
variable {s s' : Session} (same : SameSettings s s')
include same

theorem SameSettings.fileOf (id : String) : s'.fileOf id = s.fileOf id := by
  unfold Session.fileOf
  rw [same.root]

theorem SameSettings.pathOf (file : String) : s'.pathOf file = s.pathOf file := by
  unfold Session.pathOf
  rw [same.config]

theorem SameSettings.isExcluded (file : String) : s'.isExcluded file = s.isExcluded file := by
  unfold Session.isExcluded Session.isIncluded
  rw [same.included, same.excluded]

theorem SameSettings.inScope (file : String) : s'.inScope file = s.inScope file := by
  unfold Session.inScope Session.isScript Session.inNamespace Session.isIncluded
  rw [same.config, same.included, same.resolver, same.isExcluded, same.pathOf]

theorem SameSettings.analyse (path source : String) : s'.analyse path source = s.analyse path source := by
  unfold Session.analyse
  rw [same.config]

theorem SameSettings.checkUnmapped (count : Nat) : s'.checkUnmapped count = s.checkUnmapped count := by
  unfold Session.checkUnmapped
  rw [same.config]

theorem SameSettings.render (path source : String) (a : Analysis) (found : ResolvedImports) :
    s'.render path source a found = s.render path source a found := by
  unfold Session.render Session.scriptExtension
  rw [same.config]

theorem SameSettings.candidates (w : Workspace) : s'.candidates w = s.candidates w := by
  unfold Session.candidates
  rw [same.resolver, same.config]

end

theorem Move.sameSettings {w : Workspace} {s s' : Session} (move : Move w s s') : SameSettings s s' := by
  cases move <;> exact ⟨rfl, rfl, rfl, rfl, rfl⟩

theorem resolveImports_cache (s : Session) (w : Workspace) (path : String) :
    (s.resolveImports w path).2.cache = s.cache := rfl

theorem adopt_record (s : Session) (path source : String) (a : Analysis) (diagnostics : List Diagnostic) :
    (s.adopt path source a diagnostics).cache[path]?.map (fun r => (r.fingerprint, r.state)) =
      some (Digest.fingerprint source, .classesExtracted) := by
  simp [adopt]

theorem adopt_unserved (s : Session) (path source : String) (a : Analysis) (diagnostics : List Diagnostic) :
    (s.adopt path source a diagnostics).Unserved path := by
  intro r found
  have recorded := adopt_record s path source a diagnostics
  rw [found] at recorded
  simp only [Option.map_some, Option.some.injEq, Prod.mk.injEq] at recorded
  rw [recorded.2]
  decide

theorem move_setState {w : Workspace} (s : Session) (path : String) {state : FileState} (fresh : state ≠ .cached) :
    Move w s (s.setState path state) := by
  unfold setState
  rw [Cache.update_eq_map]
  apply Move.mark
  intro other r
  split
  next => exact ⟨rfl, rfl, rfl, rfl, fun cached => absurd cached fresh⟩
  next => exact .refl r

theorem move_invalidated {w : Workspace} (s : Session) (path : String) : Move w s (s.invalidated path) := by
  unfold invalidated Cache.invalidate
  rw [Cache.update_eq_map]
  apply Move.mark
  intro other r
  split
  next => exact ⟨rfl, rfl, rfl, rfl, by simp⟩
  next => exact .refl r

theorem transformNew_eq (s : Session) (w : Workspace) (path source : String) :
    s.transformNew w path source =
      match s.analyse path source with
      | .error problem =>
        let classes := (s.cache[path]?.map (·.definedClasses)).getD []
        (.error problem, { s with cache := s.cache.put (failedRecord path source problem classes) })
      | .ok a =>
        let known := s.adopt path source a []
        let found := (known.resolveImports w path).1
        match s.checkUnmapped found.missing.count with
        | .error problem => (.error problem, (known.resolveImports w path).2.setState path .importsResolved)
        | .ok () => (.ok (s.render path source a found), known.served w path source a) := by
  unfold transformNew
  cases s.analyse path source with
  | error problem => rfl
  | ok a =>
    simp only
    have same : ((((s.adopt path source a []).resolveImports w path).2.setState path .importsResolved).checkUnmapped
        ((s.adopt path source a []).resolveImports w path).1.missing.count) =
        s.checkUnmapped ((s.adopt path source a []).resolveImports w path).1.missing.count := rfl
    rw [same]
    cases s.checkUnmapped ((s.adopt path source a []).resolveImports w path).1.missing.count with
    | error problem => rfl
    | ok _ =>
      refine Prod.ext rfl ?_
      simp only [served, setState, Cache.update_update]
      rfl

theorem transformNew_moves (s : Session) (w : Workspace) (path source : String) :
    ReflTransGen (Move w) s (s.transformNew w path source).2 := by
  rw [transformNew_eq]
  cases analysed : s.analyse path source with
  | error problem => exact .single (.refuse _ analysed)
  | ok a =>
    have adopted : Move w s (s.adopt path source a []) := .adopt [] analysed
    simp only
    cases s.checkUnmapped ((s.adopt path source a []).resolveImports w path).1.missing.count with
    | error problem =>
      have resolved : Move w (s.adopt path source a []) ((s.adopt path source a []).resolveImports w path).2 :=
        .resolve (adopt_unserved s path source a [])
      exact ((ReflTransGen.single adopted).tail resolved).tail (move_setState _ path (by decide))
    | ok _ =>
      have known : (s.adopt path source a []).analyse path source = .ok a := analysed
      exact (ReflTransGen.single adopted).tail (.serve known (adopt_record s path source a []))

theorem transform_moves (s : Session) (w : Workspace) (id source : String) :
    ReflTransGen (Move w) s (s.transform w id source).2 := by
  unfold transform
  simp only
  split
  next => exact .refl
  next =>
    split
    next => exact .refl
    next => exact .refl
    next => exact transformNew_moves s w _ source

theorem define_moves (s : Session) (w : Workspace) (path source : String) :
    ReflTransGen (Move w) s (s.define path source).2 := by
  unfold define
  cases analysed : s.analyse path source with
  | error problem => exact .single (.refuse [] analysed)
  | ok a => exact .single (.adopt _ analysed)

theorem define_unserved {s : Session} (unserved : ∀ path, s.Unserved path) (path source : String) :
    ∀ other, (s.define path source).2.Unserved other := by
  intro other r found
  unfold define at found
  cases analysed : s.analyse path source with
  | error problem =>
    simp only [analysed, Cache.get_put] at found
    split at found
    next =>
      cases found
      simp [failedRecord]
    next => exact unserved other r found
  | ok a =>
    simp only [analysed, adopt, Cache.get_put] at found
    split at found
    next =>
      cases found
      simp
    next => exact unserved other r found

theorem settle_moves {s : Session} (w : Workspace) {path : String} (unserved : s.Unserved path) :
    ReflTransGen (Move w) s (settle w s path) := by
  have resolved : Move w s (s.resolveImports w path).2 := .resolve unserved
  refine (ReflTransGen.single resolved).tail ?_
  unfold settle
  simp only
  rw [Cache.update_eq_map]
  apply Move.mark
  intro other r
  split
  next => exact ⟨rfl, rfl, rfl, rfl, by simp⟩
  next => exact .refl r

theorem settle_unserved {s : Session} (unserved : ∀ path, s.Unserved path) (w : Workspace) (path : String) :
    ∀ other, (settle w s path).Unserved other := by
  intro other r found
  simp only [settle, Cache.get_update, resolveImports_cache] at found
  split at found
  next =>
    rw [Option.map_eq_some_iff] at found
    obtain ⟨old, _, rfl⟩ := found
    simp
  next => exact unserved other r found

theorem add_moves (w : Workspace) (t : Tally) (file : String) (unserved : ∀ path, t.session.Unserved path) :
    ReflTransGen (Move w) t.session (t.add w file).session ∧ ∀ path, (t.add w file).session.Unserved path := by
  unfold Tally.add
  split
  next => exact ⟨.refl, unserved⟩
  next =>
    cases read : w.read file with
    | error fault => simpa only [read] using And.intro .refl unserved
    | ok source =>
      have moves := define_moves t.session w (t.session.pathOf file) source
      have still := define_unserved unserved (t.session.pathOf file) source
      simp only
      cases outcome : t.session.define (t.session.pathOf file) source with
      | mk result session =>
        rw [outcome] at moves still
        cases result <;> exact ⟨moves, still⟩

theorem adds_moves (w : Workspace) (files : List String) (t : Tally) (unserved : ∀ path, t.session.Unserved path) :
    ReflTransGen (Move w) t.session (files.foldl (Tally.add w) t).session ∧
      ∀ path, (files.foldl (Tally.add w) t).session.Unserved path := by
  induction files generalizing t with
  | nil => exact ⟨.refl, unserved⟩
  | cons file rest ih =>
    obtain ⟨moves, still⟩ := add_moves w t file unserved
    obtain ⟨more, final⟩ := ih (t.add w file) still
    exact ⟨moves.trans more, final⟩

theorem settles_moves (w : Workspace) (paths : List String) (s : Session) (unserved : ∀ path, s.Unserved path) :
    ReflTransGen (Move w) s (paths.foldl (settle w) s) ∧ ∀ path, (paths.foldl (settle w) s).Unserved path := by
  induction paths generalizing s with
  | nil => exact ⟨.refl, unserved⟩
  | cons path rest ih =>
    obtain ⟨more, final⟩ := ih (settle w s path) (settle_unserved unserved w path)
    exact ⟨(settle_moves w (unserved path)).trans more, final⟩

theorem discover_moves_unserved (s : Session) (w : Workspace) :
    ReflTransGen (Move w) s (s.discover w).2 ∧ ∀ path, (s.discover w).2.Unserved path := by
  have empty : ∀ path, ({ s.cleared with generation := s.generation + 1 } : Session).Unserved path := by
    intro path r found
    simp [cleared] at found
  obtain ⟨found, unserved⟩ := adds_moves w
    (({ s.cleared with generation := s.generation + 1 } : Session).candidates w)
    { session := { s.cleared with generation := s.generation + 1 } } empty
  obtain ⟨settled, final⟩ := settles_moves w
    ((({ s.cleared with generation := s.generation + 1 } : Session).candidates w).foldl (Tally.add w)
      { session := { s.cleared with generation := s.generation + 1 } }).discovered _ unserved
  exact ⟨((ReflTransGen.single (Move.reset s)).trans found).trans settled, final⟩

theorem discover_moves (s : Session) (w : Workspace) : ReflTransGen (Move w) s (s.discover w).2 :=
  (discover_moves_unserved s w).1

theorem relearn_moves (s : Session) (w : Workspace) (file : String) :
    ReflTransGen (Move w) s (s.relearn w file).2 := by
  unfold relearn
  simp only
  cases w.read file with
  | error fault => exact .refl
  | ok source =>
    have moves := define_moves s w (s.pathOf file) source
    simp only
    unfold define at moves ⊢
    cases analysed : s.analyse (s.pathOf file) source with
    | error problem =>
      rw [analysed] at moves
      exact moves
    | ok a =>
      rw [analysed] at moves
      have resolved : Move w (s.adopt (s.pathOf file) source a (classFindings a))
          ((s.adopt (s.pathOf file) source a (classFindings a)).resolveImports w (s.pathOf file)).2 :=
        .resolve (adopt_unserved s _ source a _)
      exact ((moves.tail resolved).tail (move_setState _ (s.pathOf file) (by decide))).tail
        (.mark (fun _ r => Cache.dropOutput r) fun _ r => Cache.marks_dropOutput r)

theorem sameSettings_invalidated (s : Session) (path : String) : SameSettings s (s.invalidated path) :=
  ⟨rfl, rfl, rfl, rfl, rfl⟩

theorem fileChanged_changed (s : Session) (w : Workspace) (id : String) :
    s.fileChanged w id .changed =
      if s.inScope (s.fileOf id) then
        let learnt := (s.invalidated (s.pathOf (s.fileOf id))).relearn w (s.fileOf id)
        (learnt.1.map fun _ => none, learnt.2)
      else (.ok none, s.invalidated (s.pathOf (s.fileOf id))) := by
  have scope := (sameSettings_invalidated s (s.pathOf (s.fileOf id))).inScope (s.fileOf id)
  unfold invalidated at scope ⊢
  unfold fileChanged
  simp only [scope]

theorem fileChanged_moves (s : Session) (w : Workspace) (id : String) (change : FileChange) :
    ReflTransGen (Move w) s (s.fileChanged w id change).2 := by
  cases change with
  | created =>
    unfold fileChanged
    simp only
    split
    next => exact discover_moves s w
    next => exact .refl
  | deleted => exact .single (.forget s _)
  | changed =>
    rw [fileChanged_changed]
    have first : ReflTransGen (Move w) s (s.invalidated (s.pathOf (s.fileOf id))) := .single (move_invalidated s _)
    have more := relearn_moves (s.invalidated (s.pathOf (s.fileOf id))) w (s.fileOf id)
    split
    next => simpa only using first.trans more
    next => simpa only using first

theorem after_induction {P : Session → Prop} (step : ∀ w s s', Move w s s' → P s → P s') {s : Session}
    (start : P s) (call : Call) : P (s.after call) := by
  -- a call is a chain of moves in one workspace
  have chain {w : Workspace} {s' : Session} (moves : ReflTransGen (Move w) s s') : P s' := by
    induction moves with
    | refl => exact start
    | tail _ move ih => exact step w _ _ move ih
  cases call with
  | discover w => exact chain (discover_moves s w)
  | transform w id source => exact chain (transform_moves s w id source)
  | fileChanged w id change => exact chain (fileChanged_moves s w id change)

theorem run_induction {P : Session → Prop} (step : ∀ w s s', Move w s s' → P s → P s') {s : Session}
    (start : P s) (calls : List Call) : P (s.run calls) := by
  induction calls generalizing s with
  | nil => exact start
  | cons call rest ih => exact ih (after_induction step start call)

theorem run_sameSettings (s : Session) (calls : List Call) : SameSettings s (s.run calls) :=
  run_induction (P := SameSettings s) (fun _ _ _ move same => same.trans move.sameSettings) (.refl s) calls

end Session

end ClassLinker
