import ClassLinker.Proofs.CacheHits
import ClassLinker.Proofs.Ownership

set_option autoImplicit false

namespace ClassLinker

theorem Cache.lookup_eq_failed {cache : Cache} {path fingerprint : String} {problem : Problem} :
    cache.lookup path fingerprint = .failed problem ↔
      ∃ r, cache[path]? = some r ∧ r.fingerprint = fingerprint ∧ r.state = .failed ∧ r.error = some problem := by
  unfold Cache.lookup
  cases cache[path]? with
  | none => simp
  | some r =>
    simp only [Option.some.injEq, exists_eq_left']
    by_cases same : r.fingerprint = fingerprint
    next =>
      cases state : r.state <;> cases output : r.output <;> cases error : r.error <;>
        simp [same]
    next => simp [same]

namespace Session

def Uses (s : Session) : Call → String → Prop
  | .discover w, text => ∃ path, (path, text) ∈ s.readings w
  | .transform _ _ source, text => text = source
  | .fileChanged w _ .created, text => ∃ path, (path, text) ∈ s.readings w
  | .fileChanged w id .changed, text => w.read (s.fileOf id) = .ok text
  | .fileChanged _ _ .deleted, _ => False

def Explained (used : String → Prop) (s : Session) : Prop :=
  ∀ (path : String) (r : FileRecord) (problem : Problem), s.cache[path]? = some r → r.state = .failed →
    r.error = some problem →
      ∃ text, used text ∧ r.fingerprint = Digest.fingerprint text ∧ s.analyse path text = .error problem

section
variable {used : String → Prop} {s s' : Session}

theorem Explained.kept (explained : s.Explained used) (settings : SameSettings s s')
    (old : ∀ (path : String) (r : FileRecord), s'.cache[path]? = some r → r.state = .failed →
      s.cache[path]? = some r) : s'.Explained used := by
  intro path r problem found failed error
  obtain ⟨text, uses, print, refused⟩ := explained path r problem (old path r found failed) failed error
  exact ⟨text, uses, print, (settings.analyse path text).trans refused⟩

theorem Explained.mono {used' : String → Prop} (explained : s.Explained used) (more : ∀ text, used text → used' text) :
    s.Explained used' := by
  intro path r problem found failed error
  obtain ⟨text, uses, rest⟩ := explained path r problem found failed error
  exact ⟨text, more text uses, rest⟩

theorem Explained.refuse (explained : s.Explained used) {path source : String} {problem : Problem}
    (uses : used source) (refused : s.analyse path source = .error problem) (classes : List String) :
    ({ s with cache := s.cache.put (failedRecord path source problem classes) } : Session).Explained used := by
  intro other r p found failed error
  simp only [Cache.get_put] at found
  split at found
  next same =>
    cases found
    cases error
    exact ⟨source, uses, rfl, same ▸ refused⟩
  next => exact explained other r p found failed error

theorem Explained.update (explained : s.Explained used) (path : String) {f : FileRecord → FileRecord}
    (sound : ∀ r, (f r).state ≠ .failed) : ({ s with cache := s.cache.update path f } : Session).Explained used := by
  refine explained.kept ⟨rfl, rfl, rfl, rfl, rfl⟩ ?_
  intro other r found failed
  simp only [Cache.get_update] at found
  split at found
  next =>
    obtain ⟨old, _, rfl⟩ := Option.map_eq_some_iff.mp found
    exact absurd failed (sound old)
  next => exact found

theorem Explained.adopt (explained : s.Explained used) (path source : String) (a : Analysis)
    (diagnostics : List Diagnostic) : (s.adopt path source a diagnostics).Explained used := by
  refine explained.kept ⟨rfl, rfl, rfl, rfl, rfl⟩ ?_
  intro other r found failed
  rw [show (s.adopt path source a diagnostics).cache = s.cache.put _ from rfl, Cache.get_put] at found
  split at found
  next =>
    cases found
    cases failed
  next => exact found

theorem Explained.resolve (explained : s.Explained used) (w : Workspace) (path : String) :
    (s.resolveImports w path).2.Explained used :=
  explained.kept ⟨rfl, rfl, rfl, rfl, rfl⟩ fun _ _ found _ => found

theorem Explained.dropOutputs (explained : s.Explained used) :
    ({ s with cache := s.cache.invalidateAll } : Session).Explained used := by
  refine explained.kept ⟨rfl, rfl, rfl, rfl, rfl⟩ ?_
  intro path r found failed
  simp only [Cache.get_invalidateAll] at found
  obtain ⟨old, present, rfl⟩ := Option.map_eq_some_iff.mp found
  unfold Cache.dropOutput at failed ⊢
  split at failed
  next => cases failed
  next => simp_all

theorem Explained.define (explained : s.Explained used) {source : String} (uses : used source) (path : String) :
    (s.define path source).2.Explained used := by
  unfold Session.define
  cases analysed : s.analyse path source with
  | error problem => exact explained.refuse uses analysed []
  | ok a => exact explained.adopt path source a (classFindings a)

theorem Explained.settles (explained : s.Explained used) (w : Workspace) (paths : List String) :
    (paths.foldl (settle w) s).Explained used := by
  induction paths generalizing s with
  | nil => exact explained
  | cons path rest ih => exact ih ((explained.resolve w path).update path (by simp))

end

theorem add_explained {s : Session} {used : String → Prop} {t : Tally} {w : Workspace} {file : String}
    (explained : t.session.Explained used) (settings : SameSettings s t.session)
    (uses : ∀ path text, s.reading? w file = some (path, text) → used text) :
    (t.add w file).session.Explained used := by
  unfold Tally.add
  split
  next => exact explained
  next allowed =>
    cases read : w.read file with
    | error fault => exact explained
    | ok source =>
      rw [settings.isExcluded, Bool.not_eq_true] at allowed
      have given : used source := by
        apply uses (s.pathOf file) source
        simp [reading?, allowed, read, Except.toOption]
      have after := explained.define given (t.session.pathOf file)
      simp only
      cases outcome : t.session.define (t.session.pathOf file) source with
      | mk result session =>
        rw [outcome] at after
        cases result <;> exact after

theorem adds_explained {s : Session} {used : String → Prop} {w : Workspace} (files : List String)
    (uses : ∀ path text, (path, text) ∈ files.filterMap (s.reading? w) → used text) {t : Tally}
    {readings : List (String × String)} (notes : t.Notes s readings) (explained : t.session.Explained used) :
    (files.foldl (Tally.add w) t).session.Explained used := by
  induction files generalizing t readings with
  | nil => exact explained
  | cons file rest ih =>
    apply ih _ (notes.add w file)
    next =>
      apply add_explained explained notes.settings
      intro path text found
      exact uses path text (by simp [found])
    next =>
      intro path text member
      apply uses path text
      rw [List.mem_filterMap] at member ⊢
      obtain ⟨other, later, found⟩ := member
      exact ⟨other, List.mem_cons_of_mem _ later, found⟩

theorem discover_explained (s : Session) (w : Workspace) :
    (s.discover w).2.Explained fun text => ∃ path, (path, text) ∈ s.readings w := by
  have cleared : SameSettings s { s.cleared with generation := s.generation + 1 } := ⟨rfl, rfl, rfl, rfl, rfl⟩
  have notes : Tally.Notes s { session := { s.cleared with generation := s.generation + 1 } } [] :=
    ⟨cleared, rfl, by simp [Session.cleared]⟩
  have nothing : ({ s.cleared with generation := s.generation + 1 } : Session).Explained
      fun text => ∃ path, (path, text) ∈ s.readings w := by
    intro path r problem found
    simp [Session.cleared] at found
  have read := adds_explained (s.candidates w) (fun path text member => ⟨path, member⟩) notes nothing
  rw [← cleared.candidates] at read
  exact read.settles w _

section
variable {used : String → Prop} {s : Session}

theorem Explained.relearn (explained : s.Explained used) {w : Workspace} {file : String}
    (uses : ∀ text, w.read file = .ok text → used text) : (s.relearn w file).2.Explained used := by
  unfold Session.relearn
  simp only
  cases read : w.read file with
  | error fault => exact explained
  | ok source =>
    have after := explained.define (uses source read) (s.pathOf file)
    simp only
    cases outcome : s.define (s.pathOf file) source with
    | mk result session =>
      rw [outcome] at after
      cases result with
      | error problem => exact after
      | ok _ => exact ((after.resolve w (s.pathOf file)).update (s.pathOf file) (by simp)).dropOutputs

theorem Explained.forget (explained : s.Explained used) (path : String) : (s.forget path).Explained used := by
  have erased : ({ s with cache := s.cache.erase path } : Session).Explained used := by
    refine explained.kept ⟨rfl, rfl, rfl, rfl, rfl⟩ ?_
    intro other r found _
    simp only [Table.get_erase] at found
    split at found
    next => cases found
    next => exact found
  exact erased.dropOutputs

theorem Explained.fileChanged (explained : s.Explained used) {w : Workspace} {id : String} {change : FileChange}
    (uses : ∀ text, s.Uses (.fileChanged w id change) text → used text) :
    (s.fileChanged w id change).2.Explained used := by
  cases change with
  | created =>
    unfold Session.fileChanged
    simp only
    split
    next => exact (discover_explained s w).mono uses
    next => exact explained
  | deleted => exact explained.forget _
  | changed =>
    rw [fileChanged_changed]
    have invalidated : (s.invalidated (s.pathOf (s.fileOf id))).Explained used :=
      explained.update (s.pathOf (s.fileOf id)) (by simp)
    have reads : ∀ text, w.read (s.fileOf id) = .ok text → used text := uses
    have learnt := invalidated.relearn reads
    split
    next => simpa only using learnt
    next => simpa only using invalidated

theorem Explained.transformNew (explained : s.Explained used) {w : Workspace} {path source : String}
    (uses : used source) : (s.transformNew w path source).2.Explained used := by
  rw [transformNew_eq]
  cases analysed : s.analyse path source with
  | error problem => exact explained.refuse uses analysed _
  | ok a =>
    have resolved := (explained.adopt path source a []).resolve w path
    simp only
    cases s.checkUnmapped ((s.adopt path source a []).resolveImports w path).1.missing.count with
    | error problem => exact resolved.update path (by simp)
    | ok _ => exact resolved.update path (by simp)

theorem Explained.transform (explained : s.Explained used) {w : Workspace} {id source : String}
    (uses : used source) : (s.transform w id source).2.Explained used := by
  unfold Session.transform
  simp only
  split
  next => exact explained
  next =>
    cases s.cache.lookup (s.pathOf (s.fileOf id)) (Digest.fingerprint source) with
    | hit o => exact explained
    | failed problem => exact explained
    | miss => exact explained.transformNew uses

theorem Explained.after (explained : s.Explained used) {call : Call} (uses : ∀ text, s.Uses call text → used text) :
    (s.after call).Explained used := by
  cases call with
  | discover w => exact (discover_explained s w).mono uses
  | transform w id source => exact explained.transform (uses source rfl)
  | fileChanged w id change => exact explained.fileChanged uses

end

theorem SameSettings.reading? {s s' : Session} (same : SameSettings s s') (w : Workspace) (file : String) :
    s'.reading? w file = s.reading? w file := by
  unfold Session.reading?
  rw [same.isExcluded, same.pathOf]

theorem SameSettings.uses {s s' : Session} (same : SameSettings s s') (call : Call) (text : String) :
    s'.Uses call text ↔ s.Uses call text := by
  have readings (w : Workspace) : s'.readings w = s.readings w := by
    unfold Session.readings
    rw [same.candidates, funext (same.reading? w)]
  cases call with
  | discover w => simp [Uses, readings]
  | transform w id source => rfl
  | fileChanged w id change => cases change <;> simp [Uses, readings, same.fileOf]

theorem run_explained {start : Session} (empty : start.cache = ∅) (calls : List Call) :
    (start.run calls).Explained fun text => ∃ call ∈ calls, start.Uses call text := by
  induction calls using List.reverseRecOn with
  | nil =>
    intro path r problem found
    simp [empty] at found
  | append_singleton calls call ih =>
    rw [run_append, run_cons, run_nil]
    apply Explained.after
    next =>
      apply ih.mono
      rintro text ⟨earlier, member, uses⟩
      exact ⟨earlier, by simp [member], uses⟩
    next =>
      intro text uses
      exact ⟨call, by simp, ((run_sameSettings start calls).uses call text).mp uses⟩

def bodyOf (config : Config) (path source : String) (tree : Script.Tree) : String :=
  if config.replaceCallParent then
    (ParentCall.substitute tree path (ClassDefinition.all tree config.classSystems path)).code
  else source

/-- An outcome is about a source: it is made of imports and of the body of that source. -/
def About (s : Session) (path source : String) (o : TransformOutput) : Prop :=
  ∃ tree entries, Script.Tree.parse path source = .ok tree ∧
    o.code = ImportEntry.block s.scriptExtension entries ++ bodyOf s.config path source tree ∧
    o.imports = entries.map (·.specifier s.scriptExtension) ∧ (o.changed = true ↔ o.code ≠ source)

/-- What an answer says of a source, if it is about that source. -/
def Fits (s : Session) (path source : String) : Except Problem (Option TransformOutput) → Prop
  | .ok (some o) => s.About path source o
  | .error (.syntaxError file position message) =>
    Script.Tree.parse path source = .error (.syntaxError file position message)
  | _ => True

theorem SameSettings.fits {s s' : Session} (same : SameSettings s s') {path source : String}
    {answer : Except Problem (Option TransformOutput)} (fits : s.Fits path source answer) :
    s'.Fits path source answer := by
  unfold Fits About scriptExtension at fits ⊢
  rw [same.config]
  exact fits

theorem fits_of_refused {s : Session} {path source : String} {problem : Problem}
    (refused : s.analyse path source = .error problem) : s.Fits path source (.error problem) := by
  unfold analyse at refused
  cases parsed : Script.Tree.parse path source with
  | error other =>
    rw [parsed] at refused
    cases refused
    unfold Fits
    split
    next same => cases same
    next same =>
      cases same
      exact parsed
    next => trivial
  | ok tree =>
    rw [parsed] at refused
    cases refused

theorem fits_of_render {s : Session} {path source : String} {a : Analysis} (analysed : s.analyse path source = .ok a)
    (found : ResolvedImports) : s.Fits path source (.ok (some (s.render path source a found))) := by
  unfold analyse at analysed
  cases parsed : Script.Tree.parse path source with
  | error problem =>
    rw [parsed] at analysed
    cases analysed
  | ok tree =>
    rw [parsed] at analysed
    cases analysed
    refine ⟨tree, found.entries, parsed, ?_, rfl, ?_⟩
    next =>
      unfold render bodyOf
      cases s.config.replaceCallParent <;> rfl
    next => simp [render]

theorem fits_outcome (s : Session) (w : Workspace) (path source : String) :
    s.Fits path source ((s.outcome w path source).map some) := by
  unfold outcome
  cases analysed : s.analyse path source with
  | error problem => exact fits_of_refused analysed
  | ok a =>
    simp only [checkUnmapped]
    cases decide (s.config.unmapped = .fatal) && decide (0 < (s.imports w path source a).missing.count) with
    | true => trivial
    | false => exact fits_of_render analysed _

theorem fits_answer {start : Session} (empty : start.cache = ∅) (calls : List Call) (w : Workspace)
    (id source : String) :
    let s := start.run calls
    let path := s.pathOf (s.fileOf id)
    ∃ text, (text = source ∨
        ∃ call ∈ calls, start.Uses call text ∧ Digest.fingerprint text = Digest.fingerprint source) ∧
      s.Fits path text (s.transform w id source).1 := by
  intro s path
  rcases Classical.em (s.Transforms id) with transforms | outside
  next =>
    rw [transform_eq transforms]
    cases looked : s.cache.lookup path (Digest.fingerprint source) with
    -- an outcome on record was given by an earlier transformation of a source with the same fingerprint
    | hit output =>
      obtain ⟨r, stored, print, cached, output_eq⟩ := Cache.lookup_eq_hit.mp looked
      obtain ⟨before, w', id', source', later, split, origin, _⟩ := stored_origin empty calls stored cached
      obtain ⟨_, _, _, print', o', given, output_eq'⟩ := origin
      rw [output_eq, Option.some.injEq] at output_eq'
      have settings : SameSettings (start.run before) s :=
        (run_sameSettings start before).symm.trans (run_sameSettings start calls)
      have fits := settings.fits (fits_outcome (start.run before) w' path source')
      rw [given, ← output_eq'] at fits
      exact ⟨source', .inr ⟨.transform w' id' source', by simp [split], rfl, print'.symm.trans print⟩, fits⟩
    | failed problem =>
      obtain ⟨r, stored, print, failed, error⟩ := Cache.lookup_eq_failed.mp looked
      obtain ⟨text, ⟨call, member, uses⟩, print', refused⟩ :=
        run_explained empty calls path r problem stored failed error
      exact ⟨text, .inr ⟨call, member, uses, print'.symm.trans print⟩, fits_of_refused refused⟩
    | miss =>
      simp only [transformNew_outcome]
      exact ⟨source, .inl rfl, fits_outcome s w path source⟩
  next =>
    rw [transform_outside outside]
    exact ⟨source, .inl rfl, trivial⟩

/-- Whatever was called before, the answer to a request is about the source that comes with it: an outcome is made of
imports in front of the body of that source and of nothing else, and a syntax error is the one that the source has.
The sources used so far have to be told apart from it by their fingerprints. -/
theorem answer_about_given_source {root : String} {config : Config} {start : Session}
    (created : create root config = .ok start) (calls : List Call) (w : Workspace) (id source : String)
    (apart : ∀ call ∈ calls, ∀ text, start.Uses call text →
      Digest.fingerprint text = Digest.fingerprint source → text = source) :
    let s := start.run calls
    let path := s.pathOf (s.fileOf id)
    (∀ o, (s.transform w id source).1 = .ok (some o) →
      ∃ tree entries, Script.Tree.parse path source = .ok tree ∧
        o.code = ImportEntry.block s.scriptExtension entries ++ bodyOf s.config path source tree ∧
        o.imports = entries.map (·.specifier s.scriptExtension) ∧ (o.changed = true ↔ o.code ≠ source)) ∧
    (∀ file position message, (s.transform w id source).1 = .error (.syntaxError file position message) →
      Script.Tree.parse path source = .error (.syntaxError file position message)) := by
  intro s path
  obtain ⟨text, origin, fits⟩ := fits_answer (create_eq created).2.2.1 calls w id source
  obtain rfl : text = source := by
    rcases origin with same | ⟨call, member, uses, print⟩
    next => exact same
    next => exact apart call member text uses print
  constructor
  next =>
    intro o answer
    rw [answer] at fits
    exact fits
  next =>
    intro file position message answer
    rw [answer] at fits
    exact fits

set_option maxRecDepth 100000 in
theorem answers_about_sources_on_record :
    let bad := "("
    let good := "f()"
    let w : Workspace := ⟨[("src", .directory [("A.js", .file (.text bad))])]⟩
    let calls : List Call := [.discover w, .transform w "/src/B.js" good]
    let problem := Problem.syntaxError "/src/A" .start (Script.Tree.snippet bad.toList)
    let o : TransformOutput := { code := good, imports := [], diagnostics := [], changed := false }
    ∃ start, create "/r" (Config.default.withMapping "N" (.path "/src")) = .ok start ∧
      let s := start.run calls
      let path id := s.pathOf (s.fileOf id)
      s.cache.lookup (path "/src/A.js") (Digest.fingerprint bad) = .failed problem ∧
      Script.Tree.parse (path "/src/A.js") bad = .error problem ∧
      s.cache.lookup (path "/src/B.js") (Digest.fingerprint good) = .hit o ∧
      ∃ tree entries, Script.Tree.parse (path "/src/B.js") good = .ok tree ∧
        o.code = ImportEntry.block s.scriptExtension entries ++ bodyOf s.config (path "/src/B.js") good tree ∧
        o.imports = entries.map (·.specifier s.scriptExtension) ∧ (o.changed = true ↔ o.code ≠ good) := by
  -- The first answer comes from the record of a failed search, the second from that of an earlier transformation.
  intro bad good w calls problem o
  have runs : ∃ start, create "/r" (Config.default.withMapping "N" (.path "/src")) = .ok start ∧
      (start.readings w = [("/src/A", bad)] ∧ start.inScope (start.fileOf "/src/A.js") = true ∧
        start.inScope (start.fileOf "/src/B.js") = true) ∧
      (start.run calls).cache.lookup ((start.run calls).pathOf ((start.run calls).fileOf "/src/A.js"))
        (Digest.fingerprint bad) = .failed problem ∧
      (start.run calls).cache.lookup ((start.run calls).pathOf ((start.run calls).fileOf "/src/B.js"))
        (Digest.fingerprint good) = .hit o :=
    ⟨_, rfl, by decide +kernel, by decide +kernel, by decide +kernel⟩
  obtain ⟨start, created, ⟨readings, scopeA, scopeB⟩, failed, hit⟩ := runs
  have settings := run_sameSettings start calls
  rw [← settings.fileOf, ← settings.inScope] at scopeA scopeB
  have prints : Digest.fingerprint bad ≠ Digest.fingerprint good := by decide +kernel
  -- only the two sources were used
  have used {text : String} (call : Call) (member : call ∈ calls) (uses : start.Uses call text) :
      text = bad ∨ text = good := by
    simp only [calls, List.mem_cons, List.not_mem_nil, or_false] at member
    rcases member with rfl | rfl
    next =>
      obtain ⟨path, read⟩ := uses
      rw [readings, List.mem_singleton, Prod.mk.injEq] at read
      exact .inl read.2
    next => exact .inr uses
  have first := (answer_about_given_source created calls w "/src/A.js" bad (by
    intro call member text uses same
    rcases used call member uses with rfl | rfl
    next => rfl
    next => exact absurd same.symm prints)).2
  have second := (answer_about_given_source created calls w "/src/B.js" good (by
    intro call member text uses same
    rcases used call member uses with rfl | rfl
    next => exact absurd same prints
    next => rfl)).1
  refine ⟨start, created, failed, first _ _ _ ?_, hit, second o ?_⟩
  next => rw [transform_eq ⟨by decide +kernel, scopeA⟩, failed]
  next => rw [transform_eq ⟨by decide +kernel, scopeB⟩, hit]

end Session

end ClassLinker
