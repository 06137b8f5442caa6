import Mathlib.Data.List.Induction
import ClassLinker.Proofs.Dependence

set_option autoImplicit false

namespace ClassLinker

theorem Cache.lookup_eq_hit {cache : Cache} {path fingerprint : String} {o : TransformOutput} :
    cache.lookup path fingerprint = .hit o ↔
      ∃ r, cache[path]? = some r ∧ r.fingerprint = fingerprint ∧ r.state = .cached ∧ r.output = some o := by
  unfold Cache.lookup
  cases cache[path]? with
  | none => simp
  | some r =>
    simp only [Option.some.injEq, exists_eq_left']
    by_cases same : r.fingerprint = fingerprint
    next =>
      cases state : r.state <;> cases output : r.output <;> cases error : r.error <;>
        simp [same]
    next => simp [same]

theorem Cache.lookup_invalidate (cache : Cache) (path fingerprint : String) :
    (cache.invalidate path).lookup path fingerprint = .miss := by
  unfold Cache.lookup Cache.invalidate
  rw [get_update, if_pos rfl]
  cases cache[path]? with
  | none => rfl
  | some r => simp

theorem Cache.state_dropOutput (r : FileRecord) : (dropOutput r).state ≠ .cached := by
  unfold dropOutput
  split
  next => simp
  next other => exact other

theorem ImportEntry.block_eq {ext : String} {entries others : List ImportEntry}
    (same : entries.map (·.specifier ext) = others.map (·.specifier ext)) : block ext entries = block ext others := by
  have lines (list : List ImportEntry) : list.map (fun e => "import '" ++ e.specifier ext ++ "';\n") =
      (list.map (·.specifier ext)).map fun specifier => "import '" ++ specifier ++ "';\n" := by
    rw [List.map_map]
    rfl
  have none (list : List ImportEntry) : list.isEmpty = (list.map (·.specifier ext)).isEmpty := by simp
  unfold block
  rw [none, none, lines, lines, same]

namespace Session

def Transforms (s : Session) (id : String) : Prop :=
  WebPath.isAlwaysSkipped id = false ∧ s.inScope (s.fileOf id) = true

theorem transform_eq {s : Session} {id : String} (transforms : s.Transforms id) (w : Workspace) (source : String) :
    s.transform w id source =
      match s.cache.lookup (s.pathOf (s.fileOf id)) (Digest.fingerprint source) with
      | .hit output => (.ok (some output), s)
      | .failed problem => (.error problem, s)
      | .miss =>
        ((s.transformNew w (s.pathOf (s.fileOf id)) source).1.map some,
          (s.transformNew w (s.pathOf (s.fileOf id)) source).2) := by
  have belongs : ¬(WebPath.isAlwaysSkipped id || !s.inScope (s.fileOf id)) = true := by
    simp [transforms.1, transforms.2]
  refine (if_neg belongs).trans ?_
  cases s.cache.lookup (s.pathOf (s.fileOf id)) (Digest.fingerprint source) <;> rfl

theorem transform_outside {s : Session} {id : String} (outside : ¬ s.Transforms id) (w : Workspace) (source : String) :
    s.transform w id source = (.ok none, s) := by
  unfold transform
  simp only
  split
  next => rfl
  next inside =>
    simp only [Bool.or_eq_true, Bool.not_eq_eq_eq_not, Bool.not_true, not_or, Bool.not_eq_true,
      Bool.not_eq_false] at inside
    exact absurd inside outside

def outcome (s : Session) (w : Workspace) (path source : String) : Except Problem TransformOutput :=
  match s.analyse path source with
  | .error problem => .error problem
  | .ok a =>
    match s.checkUnmapped (s.imports w path source a).missing.count with
    | .error problem => .error problem
    | .ok () => .ok (s.render path source a (s.imports w path source a))

theorem outcome_eq_ok {s : Session} {w : Workspace} {path source : String} {o : TransformOutput} :
    s.outcome w path source = .ok o ↔ ∃ a, s.analyse path source = .ok a ∧
      s.checkUnmapped (s.imports w path source a).missing.count = .ok () ∧
      o = s.render path source a (s.imports w path source a) := by
  unfold outcome
  cases s.analyse path source with
  | error problem => simp
  | ok a =>
    simp only [Except.ok.injEq, exists_eq_left']
    cases s.checkUnmapped (s.imports w path source a).missing.count with
    | error problem => simp
    | ok _ => simp [eq_comm]

theorem render_eq_iff {s : Session} {path source : String} {a : Analysis} {found other : ResolvedImports} :
    s.render path source a found = s.render path source a other ↔
      (s.render path source a found).imports = (s.render path source a other).imports ∧
      (s.render path source a found).diagnostics = (s.render path source a other).diagnostics := by
  constructor
  next =>
    intro same
    rw [same]
    exact ⟨rfl, rfl⟩
  next =>
    rintro ⟨imports, diagnostics⟩
    have block : ImportEntry.block s.scriptExtension found.entries =
        ImportEntry.block s.scriptExtension other.entries := ImportEntry.block_eq imports
    unfold render at diagnostics imports ⊢
    simp only at diagnostics imports ⊢
    by_cases parents : s.config.replaceCallParent = true
    next =>
      simp only [parents, if_true] at diagnostics ⊢
      rw [diagnostics, imports, block]
    next =>
      simp only [parents, Bool.false_eq_true, if_false] at diagnostics ⊢
      rw [diagnostics, imports, block]

theorem transformNew_outcome (s : Session) (w : Workspace) (path source : String) :
    (s.transformNew w path source).1 = s.outcome w path source := by
  rw [transformNew_eq]
  unfold outcome imports
  cases s.analyse path source with
  | error problem => rfl
  | ok a =>
    simp only
    cases s.checkUnmapped ((s.adopt path source a []).resolveImports w path).1.missing.count <;> rfl

theorem SameView.outcome {path : String} {s s' : Session} (same : SameView path s s') (sound : s.registry.Sound)
    (sound' : s'.registry.Sound) {w w' : Workspace} (files : w.SameFiles w') (source : String) :
    s'.outcome w' path source = s.outcome w path source := by
  unfold Session.outcome
  rw [same.settings.analyse]
  cases s.analyse path source with
  | error problem => rfl
  | ok a =>
    simp only [same.imports sound sound' files, same.settings.checkUnmapped, same.settings.render]

theorem sameView_cache (path : String) (s : Session) (cache : Cache) : SameView path s { s with cache } :=
  ⟨⟨rfl, rfl, rfl, rfl, rfl⟩, .refl _, rfl⟩

theorem transform_invalidated {s : Session} {id : String} (transforms : s.Transforms id) (sound : s.registry.Sound)
    (w : Workspace) (source : String) :
    ((s.invalidated (s.pathOf (s.fileOf id))).transform w id source).1 =
      (s.outcome w (s.pathOf (s.fileOf id)) source).map some := by
  have same := sameSettings_invalidated s (s.pathOf (s.fileOf id))
  have transforms' : (s.invalidated (s.pathOf (s.fileOf id))).Transforms id :=
    ⟨transforms.1, by rw [same.fileOf, same.inScope, transforms.2]⟩
  have miss : (s.invalidated (s.pathOf (s.fileOf id))).cache.lookup (s.pathOf (s.fileOf id))
      (Digest.fingerprint source) = .miss := Cache.lookup_invalidate _ _ _
  have view : SameView (s.pathOf (s.fileOf id)) s (s.invalidated (s.pathOf (s.fileOf id))) := sameView_cache _ s _
  rw [transform_eq transforms', same.fileOf, same.pathOf, miss]
  simp only
  rw [transformNew_outcome, view.outcome sound sound (.refl w)]

theorem outcome_again {s : Session} (sound : s.registry.Sound) {w : Workspace} {path source : String}
    {o : TransformOutput} (given : s.outcome w path source = .ok o) :
    (s.transformNew w path source).2.outcome w path source = .ok o := by
  have given' := given
  unfold outcome at given'
  rw [transformNew_eq]
  cases analysed : s.analyse path source with
  | error problem =>
    rw [analysed] at given'
    cases given'
  | ok a =>
    rw [analysed] at given'
    simp only at given' ⊢
    have adopted : (s.adopt path source a []).registry.Sound := sound.replace path _
    have resolved : ((s.adopt path source a []).resolveImports w path).2.registry.Sound := adopted.setAllImports _
    have found := imports_again sound w analysed
    rw [show ((s.adopt path source a []).resolveImports w path).1 = s.imports w path source a from rfl]
    cases checked : s.checkUnmapped (s.imports w path source a).missing.count with
    | error problem =>
      rw [checked] at given'
      cases given'
    | ok _ =>
      have same : SameView path ((s.adopt path source a []).resolveImports w path).2
          ((s.adopt path source a []).served w path source a) := sameView_cache path _ _
      simp only
      rw [same.outcome resolved resolved (.refl w)]
      have settings : SameSettings s ((s.adopt path source a []).resolveImports w path).2 :=
        ⟨rfl, rfl, rfl, rfl, rfl⟩
      rw [← given]
      unfold outcome
      rw [settings.analyse, analysed]
      simp only
      rw [found, settings.checkUnmapped, settings.render]

theorem stored_of_put {cache : Cache} {new r : FileRecord} {path : String} (unserved : new.state ≠ .cached)
    (stored : (cache.put new)[path]? = some r) (cached : r.state = .cached) : cache[path]? = some r := by
  rw [Cache.get_put] at stored
  split at stored
  next =>
    cases stored
    exact absurd cached unserved
  next => exact stored

theorem stored_of_update {cache : Cache} {f : FileRecord → FileRecord} (unserved : ∀ r, (f r).state ≠ .cached)
    {path other : String} {r : FileRecord} (stored : (cache.update other f)[path]? = some r)
    (cached : r.state = .cached) : cache[path]? = some r ∧ other ≠ path := by
  rw [Cache.get_update] at stored
  split at stored
  next =>
    rw [Option.map_eq_some_iff] at stored
    obtain ⟨old, _, rfl⟩ := stored
    exact absurd cached (unserved old)
  next differs => exact ⟨stored, differs⟩

theorem not_stored_of_invalidateAll {cache : Cache} {path : String} {r : FileRecord}
    (stored : cache.invalidateAll[path]? = some r) : r.state ≠ .cached := by
  rw [Cache.get_invalidateAll, Option.map_eq_some_iff] at stored
  obtain ⟨old, _, rfl⟩ := stored
  exact Cache.state_dropOutput old

theorem stored_of_relearn {s : Session} {w : Workspace} {file path : String} {r : FileRecord}
    (stored : (s.relearn w file).2.cache[path]? = some r) (cached : r.state = .cached) :
    s.cache[path]? = some r ∧ SameView path s (s.relearn w file).2 := by
  -- Learning a file anew keeps outcomes only if it fails, and then nothing else has changed.
  unfold relearn at stored ⊢
  simp only at stored ⊢
  cases read : w.read file with
  | error fault =>
    rw [read] at stored
    exact ⟨stored, .refl path s⟩
  | ok source =>
    rw [read] at stored
    unfold define at stored ⊢
    simp only at stored ⊢
    cases analysed : s.analyse (s.pathOf file) source with
    | error problem =>
      rw [analysed] at stored
      exact ⟨stored_of_put (by simp [failedRecord]) stored cached, sameView_cache path s _⟩
    | ok a =>
      rw [analysed] at stored
      exact absurd cached (not_stored_of_invalidateAll stored)

theorem stored_of_fileChanged {s : Session} {w : Workspace} {id path : String} {change : FileChange} {r : FileRecord}
    (stored : (s.fileChanged w id change).2.cache[path]? = some r) (cached : r.state = .cached) :
    s.cache[path]? = some r ∧ SameView path s (s.fileChanged w id change).2 := by
  cases change with
  | created =>
    unfold fileChanged at stored ⊢
    simp only at stored ⊢
    split at stored
    next => exact absurd cached ((discover_moves_unserved s w).2 path r stored)
    next outside =>
      rw [if_neg outside]
      exact ⟨stored, .refl path s⟩
  | deleted => exact absurd cached (not_stored_of_invalidateAll stored)
  | changed =>
    rw [fileChanged_changed] at stored ⊢
    have view : SameView path s (s.invalidated (s.pathOf (s.fileOf id))) := sameView_cache path s _
    have before (kept : (s.invalidated (s.pathOf (s.fileOf id))).cache[path]? = some r) : s.cache[path]? = some r :=
      (stored_of_update (by simp) kept cached).1
    split at stored
    next inside =>
      rw [if_pos inside]
      simp only at stored ⊢
      obtain ⟨kept, more⟩ := stored_of_relearn stored cached
      exact ⟨before kept, view.trans more⟩
    next outside =>
      rw [if_neg outside]
      simp only at stored ⊢
      exact ⟨before stored, view⟩

theorem stored_of_transformNew {s : Session} {w : Workspace} {own source path : String} {r : FileRecord}
    (stored : (s.transformNew w own source).2.cache[path]? = some r) (cached : r.state = .cached) :
    (s.cache[path]? = some r ∧
      ((∃ a, s.analyse own source = .ok a) ∧ own ≠ path ∨ SameView path s (s.transformNew w own source).2)) ∨
    (own = path ∧ ∃ o, s.outcome w path source = .ok o ∧ r.output = some o ∧
      r.fingerprint = Digest.fingerprint source) := by
  have given := transformNew_outcome s w own source
  rw [transformNew_eq] at stored given ⊢
  cases analysed : s.analyse own source with
  | error problem =>
    rw [analysed] at stored
    exact .inl ⟨stored_of_put (by simp [failedRecord]) stored cached, .inr (sameView_cache path s _)⟩
  | ok a =>
    rw [analysed] at stored given
    simp only at stored given
    have others (kept : (s.adopt own source a []).cache[path]? = some r) : s.cache[path]? = some r :=
      stored_of_put (by simp) kept cached
    cases checked : s.checkUnmapped ((s.adopt own source a []).resolveImports w own).1.missing.count with
    | error problem =>
      rw [checked] at stored
      obtain ⟨kept, differs⟩ := stored_of_update (by simp) stored cached
      exact .inl ⟨others kept, .inl ⟨⟨a, rfl⟩, differs⟩⟩
    | ok _ =>
      rw [checked] at stored given
      simp only [served, Cache.get_update] at stored
      split at stored
      next same =>
        rw [Option.map_eq_some_iff] at stored
        obtain ⟨old, present, rfl⟩ := stored
        have recorded := adopt_record s own source a []
        rw [resolveImports_cache, ← same] at present
        rw [present, Option.map_some, Option.some.injEq, Prod.mk.injEq] at recorded
        exact .inr ⟨same, _, same ▸ given.symm, rfl, recorded.1⟩
      next differs => exact .inl ⟨others stored, .inl ⟨⟨a, rfl⟩, differs⟩⟩

/-- The call transforms another file than the one at `path`, and reads it for that. -/
def ReadsOther (s : Session) (path : String) : Call → Prop
  | .transform _ id source =>
    s.Transforms id ∧ s.pathOf (s.fileOf id) ≠ path ∧
      s.cache.lookup (s.pathOf (s.fileOf id)) (Digest.fingerprint source) = .miss ∧
      ∃ a, s.analyse (s.pathOf (s.fileOf id)) source = .ok a
  | .discover _ | .fileChanged _ _ _ => False

/-- The call transforms the file at `path`, reads it for that, and stores an outcome in a record. -/
def StoredBy (s : Session) (path : String) (r : FileRecord) (w : Workspace) (id source : String) : Prop :=
  s.Transforms id ∧ s.pathOf (s.fileOf id) = path ∧
    s.cache.lookup path (Digest.fingerprint source) = .miss ∧ r.fingerprint = Digest.fingerprint source ∧
    ∃ o, s.outcome w path source = .ok o ∧ r.output = some o

theorem stored_after {s : Session} {call : Call} {path : String} {r : FileRecord}
    (stored : (s.after call).cache[path]? = some r) (cached : r.state = .cached) :
    (s.cache[path]? = some r ∧ (s.ReadsOther path call ∨ SameView path s (s.after call))) ∨
      ∃ w id source, call = .transform w id source ∧ s.StoredBy path r w id source := by
  cases call with
  -- a search reads every file anew and leaves no outcome behind
  | discover w => exact absurd cached ((discover_moves_unserved s w).2 path r stored)
  | fileChanged w id change =>
    obtain ⟨kept, view⟩ := stored_of_fileChanged stored cached
    exact .inl ⟨kept, .inr view⟩
  | transform w id source =>
    rw [after_transform] at stored ⊢
    by_cases transforms : s.Transforms id
    next =>
      rw [transform_eq transforms] at stored
      rw [transform_eq transforms]
      cases looked : s.cache.lookup (s.pathOf (s.fileOf id)) (Digest.fingerprint source) with
      | hit output =>
        rw [looked] at stored
        exact .inl ⟨stored, .inr (.refl path s)⟩
      | failed problem =>
        rw [looked] at stored
        exact .inl ⟨stored, .inr (.refl path s)⟩
      | miss =>
        rw [looked] at stored
        rcases stored_of_transformNew stored cached with ⟨kept, ⟨read, differs⟩ | view⟩ | ⟨same, o, given, output, from_⟩
        next => exact .inl ⟨kept, .inl ⟨transforms, differs, looked, read⟩⟩
        next => exact .inl ⟨kept, .inr view⟩
        next => exact .inr ⟨w, id, source, rfl, transforms, same, same ▸ looked, from_, o, given, output⟩
    next =>
      rw [transform_outside transforms] at stored ⊢
      exact .inl ⟨stored, .inr (.refl path s)⟩

/-- None of the calls reads another file than the one at `path` to transform it. -/
def Undisturbed (path : String) : Session → List Call → Prop
  | _, [] => True
  | s, call :: rest => ¬ s.ReadsOther path call ∧ Undisturbed path (s.after call) rest

theorem undisturbed_append {path : String} {s : Session} {calls : List Call} {call : Call} :
    Undisturbed path s (calls ++ [call]) ↔ Undisturbed path s calls ∧ ¬ (s.run calls).ReadsOther path call := by
  induction calls generalizing s with
  | nil => simp [Undisturbed]
  | cons first rest ih => simp [Undisturbed, ih, and_assoc]

theorem stored_origin {start : Session} (empty : start.cache = ∅) (calls : List Call) {path : String} {r : FileRecord}
    (stored : (start.run calls).cache[path]? = some r) (cached : r.state = .cached) :
    ∃ before w id source later, calls = before ++ .transform w id source :: later ∧
      (start.run before).StoredBy path r w id source ∧
      (Undisturbed path ((start.run before).after (.transform w id source)) later →
        SameView path ((start.run before).after (.transform w id source)) (start.run calls)) := by
  -- The last call that stored an outcome: what the outcome depends on is still the same if no other file was read
  -- for a transformation since.
  induction calls using List.reverseRecOn with
  | nil => simp [empty] at stored
  | append_singleton calls call ih =>
    rw [run_append] at stored ⊢
    rcases stored_after stored cached with ⟨kept, change⟩ | ⟨w, id, source, rfl, origin⟩
    next =>
      -- the outcome is older than the last call, which only has to keep what the file sees
      obtain ⟨before, w, id, source, later, rfl, origin, view⟩ := ih kept
      refine ⟨before, w, id, source, later ++ [call], by simp, origin, ?_⟩
      intro quiet
      rw [undisturbed_append] at quiet
      have since : (start.run (before ++ .transform w id source :: later)) =
          ((start.run before).after (.transform w id source)).run later := by rw [run_append, run_cons]
      rcases change with reads | same
      next =>
        rw [since] at reads
        exact absurd reads quiet.2
      next => exact (view quiet.1).trans same
    next => exact ⟨calls, w, id, source, [], rfl, origin, fun _ => .refl path _⟩

/-- An outcome that is answered from the cache is what a new transformation gives exactly if that finds the same
imports, makes the same findings, and is not refused because of references that lead nowhere. The outcome was stored
by an earlier transformation of the file, and as long as the files are the same and no other file was read for a
transformation since, a new transformation gives it again. The sources that were transformed have to be told apart
by their fingerprints. -/
theorem cached_outcome_current {root : String} {config : Config} {start : Session}
    (created : create root config = .ok start) (calls : List Call) (w : Workspace) {id source : String}
    {o : TransformOutput} (transforms : (start.run calls).Transforms id)
    (hit : (start.run calls).cache.lookup ((start.run calls).pathOf ((start.run calls).fileOf id))
      (Digest.fingerprint source) = .hit o)
    (apart : ∀ w' id' source', Call.transform w' id' source' ∈ calls →
      Digest.fingerprint source' = Digest.fingerprint source → source' = source) :
    let s := start.run calls
    let path := s.pathOf (s.fileOf id)
    let anew := ((s.invalidated path).transform w id source).1
    s.transform w id source = (.ok (some o), s) ∧
    (∃ a, s.analyse path source = .ok a ∧
      (anew = .ok (some o) ↔
        s.checkUnmapped (s.imports w path source a).missing.count = .ok () ∧
        (s.render path source a (s.imports w path source a)).imports = o.imports ∧
        (s.render path source a (s.imports w path source a)).diagnostics = o.diagnostics)) ∧
    ∃ before w' id' later, calls = before ++ .transform w' id' source :: later ∧
      s.pathOf (s.fileOf id') = path ∧ ((start.run before).transform w' id' source).1 = .ok (some o) ∧
      (w'.SameFiles w → SameView path ((start.run before).after (.transform w' id' source)) s →
        anew = .ok (some o)) ∧
      (Undisturbed path ((start.run before).after (.transform w' id' source)) later →
        SameView path ((start.run before).after (.transform w' id' source)) s) := by
  intro s path anew
  have sound : s.registry.Sound := run_sound (create_sound created) calls
  have fresh : anew = (s.outcome w path source).map some := transform_invalidated transforms sound w source
  have anew_iff : anew = .ok (some o) ↔ s.outcome w path source = .ok o := by
    rw [fresh]
    cases s.outcome w path source <;> simp [Except.map]
  have answered : s.transform w id source = (.ok (some o), s) := by
    rw [transform_eq transforms, hit]
  obtain ⟨r, stored, print, cached, output⟩ := Cache.lookup_eq_hit.mp hit
  obtain ⟨before, w', id', source', later, split, origin, view⟩ :=
    stored_origin (create_eq created).2.2.1 calls stored cached
  obtain ⟨transforms', same_path, miss, print', o', given, output'⟩ := origin
  -- the record holds a fingerprint only; that it tells sources apart is an assumption
  have source_eq : source' = source := by
    apply apart w' id'
    next => simp [split]
    next => rw [← print', print]
  subst source_eq
  rw [output, Option.some.injEq] at output'
  subst output'
  have sound₀ : (start.run before).registry.Sound := run_sound (create_sound created) before
  have settings : SameSettings (start.run before) s :=
    (run_sameSettings start before).symm.trans (run_sameSettings start calls)
  refine ⟨answered, ?_, before, w', id', later, split, ?_, ?_, ?_, view⟩
  next =>
    obtain ⟨a, analysed, _, rendered⟩ := outcome_eq_ok.mp given
    have analysed' : s.analyse path source' = .ok a := (settings.analyse path source').trans analysed
    refine ⟨a, analysed', ?_⟩
    rw [anew_iff, outcome_eq_ok, rendered, ← settings.render, ← render_eq_iff]
    constructor
    next =>
      rintro ⟨b, known, passed, same⟩
      rw [analysed', Except.ok.injEq] at known
      subst known
      exact ⟨passed, same.symm⟩
    next =>
      rintro ⟨passed, same⟩
      exact ⟨a, analysed', passed, same.symm⟩
  next =>
    rw [settings.fileOf, settings.pathOf]
    exact same_path
  next =>
    rw [transform_eq transforms', same_path, miss]
    simp only
    rw [transformNew_outcome, given]
    rfl
  next =>
    intro files same
    have after_eq : (start.run before).after (.transform w' id' source') =
        ((start.run before).transformNew w' path source').2 := by
      rw [after_transform, transform_eq transforms', same_path, miss]
    have sound₁ : ((start.run before).transformNew w' path source').2.registry.Sound := by
      rw [← after_eq, ← run_nil ((start.run before).after _), ← run_cons]
      exact run_sound sound₀ _
    rw [after_eq] at same
    rw [anew_iff, same.outcome sound₁ sound files]
    exact outcome_again sound₀ given

set_option maxRecDepth 100000 in
theorem cached_outcome_current_after_change :
    let calls : List Call := [
      .transform .empty "/src/X.js" "Ext.define('N.X',\x7b\x7d)",
      .transform .empty "/src/A.js" "Ext.define('N.A',\x7buses:'N.X'\x7d)",
      .fileChanged .empty "/src/Z.js" .changed]
    let source := "Ext.define('N.A',\x7buses:'N.X'\x7d)"
    let o : TransformOutput := {
      code := "/*** <extjs-import> ***/\nimport '/src/X.js';\n/*** </extjs-import> ***/\n\n" ++ source
      imports := ["/src/X.js"], diagnostics := [], changed := true }
    ∃ start, create "/r" (Config.default.withMapping "N" (.path "/src")) = .ok start ∧
    let path := (start.run calls).pathOf ((start.run calls).fileOf "/src/A.js")
    (start.run calls).Transforms "/src/A.js" ∧
    (start.run calls).cache.lookup path (Digest.fingerprint source) = .hit o ∧
    (((start.run calls).invalidated path).transform .empty "/src/A.js" source).1 = .ok (some o) := by
  -- A file is transformed, a change of another file that cannot be read is reported, and the file is transformed
  -- again.
  intro calls source o
  have runs : ∃ start, create "/r" (Config.default.withMapping "N" (.path "/src")) = .ok start ∧
      start.inScope (start.fileOf "/src/A.js") = true ∧ start.pathOf (start.fileOf "/src/A.js") = "/src/A" ∧
      (start.run calls).cache.lookup "/src/A" (Digest.fingerprint source) = .hit o :=
    ⟨_, rfl, by decide +kernel, by decide +kernel, by decide +kernel⟩
  have prints : Digest.fingerprint "Ext.define('N.X',\x7b\x7d)" ≠ Digest.fingerprint source := by decide +kernel
  obtain ⟨start, created, scope, path, hit⟩ := runs
  have settings := run_sameSettings start calls
  rw [← settings.fileOf, ← settings.inScope] at scope
  rw [← path, ← settings.fileOf, ← settings.pathOf] at hit
  have transforms : (start.run calls).Transforms "/src/A.js" := ⟨by decide +kernel, scope⟩
  refine ⟨start, created, transforms, hit, ?_⟩
  have apart : ∀ w' id' source', Call.transform w' id' source' ∈ calls →
      Digest.fingerprint source' = Digest.fingerprint source → source' = source := by
    intro w' id' source' member same
    simp only [calls, List.mem_cons, Call.transform.injEq, reduceCtorEq, List.not_mem_nil, or_false] at member
    rcases member with ⟨_, _, rfl⟩ | ⟨_, _, rfl⟩
    next => exact absurd same prints
    next => rfl
  obtain ⟨_, _, before, w', id', later, split, _, _, current, quiet⟩ :=
    cached_outcome_current created calls .empty transforms hit apart
  -- the second call is the only one with this source
  have third : w' = .empty ∧ later = [.fileChanged .empty "/src/Z.js" .changed] := by
    rcases before with _ | ⟨_, _ | ⟨_, _ | ⟨_, rest⟩⟩⟩
    next => simp [calls, source] at split
    next =>
      simp only [calls, List.cons_append, List.nil_append, List.cons.injEq, Call.transform.injEq] at split
      exact ⟨split.2.1.1.symm, split.2.2.symm⟩
    next => simp [calls] at split
    next => simp [calls] at split
  obtain ⟨rfl, rfl⟩ := third
  exact current (.refl _) (quiet ⟨id, trivial⟩)

set_option maxRecDepth 100000 in
/-- The class that a stored outcome imports is gone, since its file was transformed without it. The outcome is answered
all the same, and a new transformation imports nothing. -/
theorem stored_outcome_outlives_class :
    let source := "Ext.define('N.A',\x7buses:'O.X'\x7d)"
    let calls : List Call := [
      .transform .empty "/src/X.js" "Ext.define('O.X',\x7b\x7d)", .transform .empty "/src/A.js" source,
      .transform .empty "/src/X.js" "f()"]
    let o : TransformOutput := {
      code := "/*** <extjs-import> ***/\nimport '/src/X.js';\n/*** </extjs-import> ***/\n\n" ++ source
      imports := ["/src/X.js"], diagnostics := [], changed := true }
    ∃ start, create "/r" (Config.default.withMapping "N" (.path "/src")) = .ok start ∧
      (start.run calls).cache.lookup "/src/A" (Digest.fingerprint source) = .hit o ∧
      ((start.run calls).transform .empty "/src/A.js" source).1 = .ok (some o) ∧
      (((start.run calls).invalidated "/src/A").transform .empty "/src/A.js" source).1.toOption.join.map (·.imports) =
        some [] :=
  ⟨_, rfl, by decide +kernel⟩

end Session

end ClassLinker
