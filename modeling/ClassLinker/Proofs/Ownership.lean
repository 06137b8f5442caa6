import ClassLinker.Proofs.Deduplication
import ClassLinker.Proofs.ImportClaims
import ClassLinker.Proofs.Search

set_option autoImplicit false

namespace ClassLinker

theorem lookup_of_unique {α : Type} {entries : List (String × α)} {key : String} {value : α}
    (member : (key, value) ∈ entries) (unique : ∀ other, (key, other) ∈ entries → other = value) :
    entries.lookup key = some value := by
  cases found : entries.lookup key with
  | none =>
    rw [List.lookup_eq_none_iff] at found
    have absent := found (key, value) member
    simp at absent
  | some other =>
    rw [List.lookup_eq_some_iff] at found
    obtain ⟨before, after, split, _⟩ := found
    rw [unique other (by simp [split])]

def FileRecord.silent (r : FileRecord) : FileRecord := { r with diagnostics := [] }

namespace Session

def reading? (s : Session) (w : Workspace) (file : String) : Option (String × String) :=
  if s.isExcluded file then none else (w.read file).toOption.map (s.pathOf file, ·)

def readings (s : Session) (w : Workspace) : List (String × String) := (s.candidates w).filterMap (s.reading? w)

def ownImports (s : Session) (path source : String) : List String :=
  ((s.analyse path source).toOption.map (·.existing)).getD []

/-- The imports in the source that a search reads at a path. If it reads several there, the last one counts. -/
def importsRead (s : Session) (w : Workspace) (path : String) : List String :=
  (((s.readings w).reverse.lookup path).map (s.ownImports path)).getD []

def recordOf (s : Session) (path source : String) : FileRecord :=
  match s.analyse path source with
  | .error problem => failedRecord path source problem []
  | .ok a => {
      path
      fingerprint := Digest.fingerprint source
      definedClasses := a.classes.map (·.descriptor.name)
      existingImports := a.existing
      state := .classesExtracted
      diagnostics := classFindings a }

theorem existing_recordOf (s : Session) (path source : String) :
    (s.recordOf path source).existingImports = s.ownImports path source := by
  unfold recordOf ownImports
  cases s.analyse path source <;> rfl

structure Tally.Notes (s : Session) (t : Tally) (readings : List (String × String)) : Prop where
  settings : SameSettings s t.session
  claims : t.session.claims = .ofPolicy s.config.dedup
  records : ∀ path : String, t.session.cache[path]? = (readings.reverse.lookup path).map (s.recordOf path)

theorem define_record {s t : Session} (same : SameSettings s t) (path source other : String) :
    (t.define path source).2.cache[other]? =
      if path = other then some (s.recordOf path source) else t.cache[other]? := by
  unfold define recordOf
  rw [same.analyse]
  cases s.analyse path source with
  | error problem => simp [failedRecord]
  | ok a => simp [adopt, replaceClasses]

theorem define_settings {s t : Session} (same : SameSettings s t) (path source : String) :
    SameSettings s (t.define path source).2 := by
  unfold define
  cases t.analyse path source <;> exact same.trans ⟨rfl, rfl, rfl, rfl, rfl⟩

theorem define_claims (s : Session) (path source : String) : (s.define path source).2.claims = s.claims := by
  unfold define
  cases s.analyse path source <;> rfl

theorem Tally.Notes.add {s : Session} {t : Tally} {readings : List (String × String)} (notes : t.Notes s readings)
    (w : Workspace) (file : String) : (t.add w file).Notes s (readings ++ (s.reading? w file).toList) := by
  unfold Tally.add reading?
  rw [notes.settings.isExcluded]
  cases s.isExcluded file with
  | true => exact ⟨notes.settings, notes.claims, by simpa using notes.records⟩
  | false =>
    simp only [Bool.false_eq_true, if_false]
    cases read : w.read file with
    | error fault => exact ⟨notes.settings, notes.claims, by simpa [Except.toOption] using notes.records⟩
    | ok source =>
      rw [notes.settings.pathOf]
      have settings := define_settings notes.settings (s.pathOf file) source
      have records := define_record notes.settings (s.pathOf file) source
      have claims := (define_claims t.session (s.pathOf file) source).trans notes.claims
      have all : ∀ path : String, (t.session.define (s.pathOf file) source).2.cache[path]? =
          ((readings ++ [(s.pathOf file, source)]).reverse.lookup path).map (s.recordOf path) := by
        intro path
        rw [records, notes.records, List.reverse_append, List.reverse_singleton, List.singleton_append,
          List.lookup_cons]
        by_cases same : s.pathOf file = path
        next => simp [same]
        next =>
          have differs : (path == s.pathOf file) = false := by simpa using Ne.symm same
          simp [same, differs]
      simp only [Except.toOption, Option.map_some, Option.toList_some]
      cases outcome : t.session.define (s.pathOf file) source with
      | mk result session =>
        rw [outcome] at settings claims all
        cases result <;> exact ⟨settings, claims, all⟩

theorem Tally.Notes.adds {s : Session} {t : Tally} {readings : List (String × String)} (notes : t.Notes s readings)
    (w : Workspace) (files : List String) :
    (files.foldl (Tally.add w) t).Notes s (readings ++ files.filterMap (s.reading? w)) := by
  induction files generalizing t readings with
  | nil => simpa using notes
  | cons file rest ih =>
    have more := ih (notes.add w file)
    rw [List.append_assoc] at more
    cases found : s.reading? w file <;> simpa [found] using more

theorem Tally.Notes.existing {s : Session} {t : Tally} {w : Workspace} (notes : t.Notes s (s.readings w))
    (path : String) : t.session.existingImports path = s.importsRead w path := by
  rw [existingImports, notes.records, Option.map_map, importsRead]
  congr 2
  funext source
  exact existing_recordOf s path source

theorem discover_eq (s : Session) (w : Workspace) : ∃ t : Tally, t.Has s (s.search w) ∧ t.Notes s (s.readings w) ∧
    (s.discover w).2 = ((s.search w).map (·.1)).foldl (settle w) t.session := by
  have cleared : SameSettings s { s.cleared with generation := s.generation + 1 } := ⟨rfl, rfl, rfl, rfl, rfl⟩
  have has : Tally.Has s { session := { s.cleared with generation := s.generation + 1 } } [] :=
    ⟨cleared, rfl, by simp [Session.cleared], rfl⟩
  have notes : Tally.Notes s { session := { s.cleared with generation := s.generation + 1 } } [] :=
    ⟨cleared, rfl, by simp [Session.cleared]⟩
  have all := has.adds w (s.candidates w)
  rw [List.nil_append] at all
  refine ⟨_, all, notes.adds w (s.candidates w), ?_⟩
  unfold search
  rw [← all.discovered, ← cleared.candidates]
  rfl

theorem settle_record (w : Workspace) (s : Session) (path other : String) :
    (settle w s path).cache[other]?.map FileRecord.silent =
      if path = other then s.cache[other]?.map fun r => { r.silent with state := .importsResolved }
      else s.cache[other]?.map FileRecord.silent := by
  simp only [settle, Cache.get_update, resolveImports_cache]
  split
  next =>
    rw [Option.map_map]
    rfl
  next => rfl

theorem settles_record (w : Workspace) (paths : List String) (s : Session) (path : String) :
    (paths.foldl (settle w) s).cache[path]?.map FileRecord.silent =
      if path ∈ paths then s.cache[path]?.map fun r => { r.silent with state := .importsResolved }
      else s.cache[path]?.map FileRecord.silent := by
  induction paths generalizing s with
  | nil => simp
  | cons first rest ih =>
    have step := settle_record w s first path
    -- once more does not matter
    have again : (settle w s first).cache[path]?.map (fun r => { r.silent with state := .importsResolved }) =
        s.cache[path]?.map fun r => { r.silent with state := .importsResolved } := by
      have state := congrArg (Option.map fun r : FileRecord => { r with state := .importsResolved }) step
      split at state <;> simpa [Function.comp_def, FileRecord.silent] using state
    rw [List.foldl_cons, ih, again, step]
    by_cases later : path ∈ rest
    next => simp [later]
    next =>
      by_cases same : first = path
      next => simp [same]
      next => simp [later, same, Ne.symm same]

theorem existing_settle (w : Workspace) (s : Session) (path other : String) :
    (settle w s path).existingImports other = s.existingImports other := by
  have step := congrArg (Option.map FileRecord.existingImports) (settle_record w s path other)
  have same : (settle w s path).cache[other]?.map FileRecord.existingImports =
      s.cache[other]?.map FileRecord.existingImports := by
    split at step <;> simpa [Function.comp_def, FileRecord.silent] using step
  exact congrArg (Option.getD · []) same

structure Kept (s s' : Session) : Prop where
  settings : SameSettings s s'
  registry : s.registry.Alike s'.registry
  policy : s'.claims.policy = s.claims.policy
  existing : ∀ path, s'.existingImports path = s.existingImports path

theorem settle_kept (w : Workspace) (s : Session) (path : String) : Kept s (settle w s path) where
  settings := ⟨rfl, rfl, rfl, rfl, rfl⟩
  registry := Registry.setAllImports_alike _ _
  policy := (s.resolveImports_resolves w path).granted.policy
  existing := existing_settle w s path

theorem settles_kept (w : Workspace) (paths : List String) (s : Session) : Kept s (paths.foldl (settle w) s) := by
  induction paths generalizing s with
  | nil => exact ⟨.refl s, .refl _, rfl, fun _ => rfl⟩
  | cons path rest ih =>
    have first := settle_kept w s path
    have later := ih (settle w s path)
    exact ⟨first.settings.trans later.settings, first.registry.trans later.registry,
      later.policy.trans first.policy, fun other => (later.existing other).trans (first.existing other)⟩

def needs (s : Session) (w : Workspace) (path : String) : List String :=
  ((s.surroundings w).resolveAlone path (s.registry.classesIn path) (s.existingImports path)).scripts

theorem needs_eq {s s' : Session} {w : Workspace} {path : String} (settings : SameSettings s s')
    (registry : s.registry.Alike s'.registry) (existing : s'.existingImports path = s.existingImports path) :
    s'.needs w path = s.needs w path := by
  unfold needs Surroundings.resolveAlone
  rw [existing, (surroundings_alike settings registry (.refl w)).resolveFile path (registry.classesIn path)]

theorem scripts_resolveImports (s : Session) (w : Workspace) (path : String) :
    (s.resolveImports w path).1.scripts =
      (s.needs w path).filter fun p => ((s.claims.release path).claim p path).1 :=
  (s.surroundings w).scripts_resolveFile path (s.registry.classesIn path) (s.existingImports path)
    (s.claims.release path)

theorem owner_resolveImports {s : Session} (once : s.claims.policy = .global) (w : Workspace) (path p : String) :
    (s.resolveImports w path).2.claims.owner? p =
      match (s.claims.owner? p).filter (· ≠ path) with
      | some other => some other
      | none => if p ∈ s.needs w path then some path else none := by
  have once' : (s.claims.release path).policy = .global := once
  rw [(s.resolveImports_resolves w path).granted.owner once']
  simp only [scripts_resolveImports, List.mem_filter, Claims.claim_iff once', Claims.owner_release]
  cases others : (s.claims.owner? p).filter (· ≠ path) with
  | none => simp
  | some other =>
    have differs : other ≠ path := by
      rw [Option.filter_eq_some_iff] at others
      simpa using others.2
    simp [differs]

theorem owner_settles {s : Session} (once : s.claims.policy = .global) (w : Workspace) (paths : List String)
    (unclaimed : ∀ p, s.claims.owner? p = none) (p : String) :
    (paths.foldl (settle w) s).claims.owner? p = paths.find? fun path => decide (p ∈ s.needs w path) := by
  induction paths using List.reverseRecOn with
  | nil => simpa using unclaimed p
  | append_singleton paths path ih =>
    rw [List.foldl_append, List.foldl_cons, List.foldl_nil, List.find?_append]
    have kept := settles_kept w paths s
    have policy := kept.policy.trans once
    have step := owner_resolveImports policy w path p
    rw [ih, needs_eq kept.settings kept.registry (kept.existing path)] at step
    refine step.trans ?_
    -- a path that this file had already is needed by it
    cases first : paths.find? fun file => decide (p ∈ s.needs w file) with
    | none => by_cases needed : p ∈ s.needs w path <;> simp [needed]
    | some file =>
      have needed : p ∈ s.needs w file := by simpa using List.find?_some first
      by_cases same : file = path
      next =>
        rw [same] at needed
        simp [same, Option.filter_some, needed]
      next => simp [same, Option.filter_some]

theorem imported_resolveImports {s : Session} (sound : s.registry.Sound) (w : Workspace) {path p : String}
    (found : p ∈ (s.resolveImports w path).1.scripts) :
    ∃ d ∈ (s.resolveImports w path).2.registry.classesIn path, p ∈ d.imports := by
  have names := (s.resolveImports_resolves w path).names
  rw [sound.coherent.map_name_classesIn] at names
  obtain ⟨⟨name, imports⟩, member, imported⟩ := List.mem_flatMap.mp found
  -- no class of the file has two lists of imports
  have own : (s.resolveImports w path).1.byClass.reverse.lookup name = some imports := by
    have distinct : ((s.resolveImports w path).1.byClass.map Prod.fst).Nodup := names ▸ sound.coherent.distinct path
    refine lookup_of_unique (by simpa using member) fun other more => ?_
    have same : (name, other) = (name, imports) :=
      List.inj_on_of_nodup_map distinct (by simpa using more) member rfl
    exact congrArg Prod.snd same
  have listed : name ∈ s.registry.namesIn path := names ▸ List.mem_map_of_mem member
  obtain ⟨d, present, source⟩ := sound.coherent.listed listed
  have resolved : (s.resolveImports w path).2.registry.Sound := sound.setAllImports _
  refine ⟨{ d with imports }, resolved.coherent.mem_classesIn.mpr ⟨?_, source⟩, imported⟩
  rw [resolveImports_registry, Registry.get_setAllImports]
  simp only [sound.coherent.named present, own, present, Option.map_some]

theorem foreign_resolveImports {s : Session} (sound : s.registry.Sound) (w : Workspace) {path : String}
    {d : Descriptor} (member : d ∈ s.registry.classesIn d.sourceFile) (foreign : d.sourceFile ≠ path) :
    d ∈ (s.resolveImports w path).2.registry.classesIn d.sourceFile := by
  have resolved : (s.resolveImports w path).2.registry.Sound := sound.setAllImports _
  have present := (sound.coherent.mem_classesIn.mp member).1
  refine resolved.coherent.mem_classesIn.mpr ⟨?_, rfl⟩
  obtain ⟨e, known, bare⟩ := Option.map_eq_some_iff.mp
    (((Registry.setAllImports_alike (s.resolveImports w path).1.byClass s.registry).get d.name).trans
      (congrArg (Option.map Descriptor.bare) present))
  rcases resolveImports_classes sound w path known with ⟨own, _⟩ | ⟨_, old⟩
  next => exact absurd ((Descriptor.sourceFile_of_bare bare).symm.trans own) foreign
  next =>
    rw [present] at old
    exact known.trans old.symm

def Backed (s : Session) : Prop :=
  ∀ p file, s.claims.owner? p = some file → ∃ d ∈ s.registry.classesIn file, p ∈ d.imports

theorem Backed.settle {s : Session} (backed : s.Backed) (sound : s.registry.Sound) (once : s.claims.policy = .global)
    (w : Workspace) (path : String) : (settle w s path).Backed := by
  intro p file owned
  have owned : (s.resolveImports w path).2.claims.owner? p = some file := owned
  rw [(s.resolveImports_resolves w path).granted.owner once] at owned
  split at owned
  next found =>
    cases owned
    exact imported_resolveImports sound w found
  next =>
    rw [Claims.owner_release, Option.filter_eq_some_iff] at owned
    obtain ⟨before, differs⟩ := owned
    obtain ⟨d, member, imported⟩ := backed p file before
    have source : d.sourceFile = file := (sound.coherent.mem_classesIn.mp member).2
    subst source
    exact ⟨d, foreign_resolveImports sound w member (by simpa using differs), imported⟩

theorem Backed.settles {s : Session} (backed : s.Backed) (sound : s.registry.Sound) (once : s.claims.policy = .global)
    (w : Workspace) (paths : List String) : (paths.foldl (Session.settle w) s).Backed := by
  induction paths generalizing s with
  | nil => exact backed
  | cons path rest ih =>
    have policy := (s.resolveImports_resolves w path).granted.policy.trans once
    exact ih (backed.settle sound once w path) (sound.setAllImports _) policy

theorem discover_linked (s : Session) (w : Workspace) : (s.discover w).2.Linked :=
  run_linked (s := s.cleared) Registry.sound_empty (.reset s s.generation) [.discover w]

/-- The scripts that a file needs after a search: what would be found for it if no path were shared with other
files. -/
def demand (start : Session) (w : Workspace) (path : String) : List String :=
  let s := (start.discover w).2
  ((s.surroundings w).resolveFile path (s.registry.classesIn path) (start.importsRead w path)
    (.ofPolicy .file)).1.entries.filterMap ImportEntry.script?

theorem existing_discover (start : Session) (w : Workspace) (path : String) :
    (start.discover w).2.existingImports path = start.importsRead w path := by
  obtain ⟨t, _, notes, after⟩ := start.discover_eq w
  rw [after, (settles_kept w _ t.session).existing, notes.existing]

theorem demand_eq (start : Session) (w : Workspace) (path : String) :
    start.demand w path = (start.discover w).2.needs w path := by
  unfold needs
  rw [existing_discover]
  exact (Surroundings.resolveFile_resolves _ _ _ _ _).script_entries

theorem needs_discover {start : Session} {w : Workspace} {t : Tally}
    (after : (start.discover w).2 = ((start.search w).map (·.1)).foldl (settle w) t.session) (path : String) :
    (start.discover w).2.needs w path = t.session.needs w path := by
  have kept := settles_kept w ((start.search w).map (·.1)) t.session
  rw [after]
  exact needs_eq kept.settings kept.registry (kept.existing path)

theorem owner_discover {start : Session} (once : start.config.dedup = .global) (w : Workspace) (p : String) :
    (start.discover w).2.claims.owner? p =
      ((start.search w).map (·.1)).find? fun path => decide (p ∈ (start.discover w).2.needs w path) := by
  obtain ⟨t, _, notes, after⟩ := start.discover_eq w
  have policy : t.session.claims.policy = .global := by rw [notes.claims, Claims.ofPolicy, once]
  have unclaimed (q : String) : t.session.claims.owner? q = none := by
    simp [notes.claims, Claims.ofPolicy, Claims.owner?]
  simp only [needs_discover after]
  rw [after]
  exact owner_settles policy w _ unclaimed p

theorem backed_discover {start : Session} (once : start.config.dedup = .global) (w : Workspace) :
    (start.discover w).2.Backed := by
  obtain ⟨t, has, notes, after⟩ := start.discover_eq w
  have sound : t.session.registry.Sound := has.registry ▸ Registry.sound_readAll (start.search w)
  have policy : t.session.claims.policy = .global := by rw [notes.claims, Claims.ofPolicy, once]
  rw [after]
  apply Backed.settles _ sound policy
  intro p file owned
  simp [notes.claims, Claims.ofPolicy, Claims.owner?] at owned

/-- After a search in which every path is imported only once, a path belongs to the first file that needs it, in the
order in which the files were read, and nobody has a path that no file needs. So what is needed is imported by the
classes of exactly one file. -/
theorem needed_paths_owned_once (start : Session) (w : Workspace) (once : start.config.dedup = .global) :
    let s := (start.discover w).2
    let files := (start.search w).map (·.1)
    (∀ path, s.claims.owner? path = files.find? fun file => decide (path ∈ start.demand w file)) ∧
    (∀ path, s.claims.owner? path = none ↔ ∀ file ∈ files, path ∉ start.demand w file) ∧
    (∀ path, (∃ file ∈ files, path ∈ start.demand w file) →
      ∃! file, ∃ d ∈ s.registry.classesIn file, path ∈ d.imports) := by
  intro s files
  have first (path : String) :
      s.claims.owner? path = files.find? fun file => decide (path ∈ start.demand w file) := by
    simp only [demand_eq]
    exact owner_discover once w path
  have nobody (path : String) : s.claims.owner? path = none ↔ ∀ file ∈ files, path ∉ start.demand w file := by
    simp [first]
  refine ⟨first, nobody, ?_⟩
  rintro path ⟨needy, listed, needed⟩
  obtain ⟨file, owned⟩ : ∃ file, s.claims.owner? path = some file := by
    rw [← Option.isSome_iff_exists, Option.isSome_iff_ne_none]
    intro none
    exact (nobody path).mp none needy listed needed
  have discovered := discovered_discover start w
  refine ⟨file, backed_discover once w path file owned, ?_⟩
  -- whoever imports the path has it
  rintro other ⟨d, member, imported⟩
  obtain ⟨present, source⟩ := discovered.sound.coherent.mem_classesIn.mp member
  have claimed := (discover_linked start w).claimed (discovered.settings.config ▸ once) present path imported
  rw [owned, Option.some.injEq] at claimed
  exact source.symm.trans claimed.symm

set_option maxRecDepth 100000 in
theorem needed_path_owned_by_first_of_two :
    let config := { Config.default with included := ["/a/*.js", "/b/*.js", "/x/*.js"] }
    let script (directory file text : String) : String × Workspace.Node :=
      (directory, .directory [(file, .file (.text text))])
    let w : Workspace := ⟨[
      script "a" "A.js" "Ext.define('A',\x7buses:'X'\x7d)",
      script "b" "B.js" "Ext.define('B',\x7buses:'X'\x7d)",
      script "x" "X.js" "Ext.define('X',\x7b\x7d)"]⟩
    ∃ start, create "/r" config = .ok start ∧ start.config.dedup = .global ∧
    (start.search w).map (·.1) = ["/a/A", "/b/B", "/x/X"] ∧
    start.demand w "/a/A" = ["/x/X"] ∧ start.demand w "/b/B" = ["/x/X"] ∧
    (start.discover w).2.claims.owner? "/x/X" = some "/a/A" ∧
    ∃! file, ∃ d ∈ (start.discover w).2.registry.classesIn file, "/x/X" ∈ d.imports := by
  -- Two files need the same class, and the first of them gets it.
  intro config script w
  have runs : ∃ start, create "/r" config = .ok start ∧ start.config.dedup = .global ∧
      (start.search w).map (·.1) = ["/a/A", "/b/B", "/x/X"] ∧
      start.demand w "/a/A" = ["/x/X"] ∧ start.demand w "/b/B" = ["/x/X"] :=
    ⟨_, rfl, rfl, by decide +kernel⟩
  obtain ⟨start, created, once, files, first, second⟩ := runs
  obtain ⟨owner, _, imported⟩ := needed_paths_owned_once start w once
  refine ⟨start, created, once, files, first, second, ?_, imported "/x/X" ⟨"/a/A", ?_, ?_⟩⟩
  next => rw [owner, files, List.find?_cons_of_pos (by simp [first])]
  next => simp [files]
  next => simp [first]

end Session

end ClassLinker
