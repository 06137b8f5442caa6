import ClassLinker.Proofs.CacheHits
import ClassLinker.Proofs.Ownership

set_option autoImplicit false

namespace ClassLinker

namespace Registry

def Lists (r : Registry) (classesAt : String → List Descriptor) : Prop :=
  ∀ file, r.namesIn file = namesAfter (classesAt file) file []

theorem mem_namesAfter {classes : List Descriptor} {file name : String} {names : List String}
    (member : name ∈ namesAfter classes file names) : name ∈ names ∨ name ∈ classes.map (·.name) := by
  induction classes generalizing names with
  | nil => exact .inl member
  | cons d rest ih =>
    rcases ih member with before | later
    next =>
      rw [List.mem_append, List.mem_filter] at before
      rcases before with ⟨old, _⟩ | new
      next => exact .inl old
      next =>
        split at new
        next => exact .inr (by simp_all)
        next => cases new
    next => exact .inr (List.mem_cons_of_mem _ later)

theorem Lists.replace {r : Registry} {classesAt : String → List Descriptor} {path : String}
    {classes : List Descriptor} (lists : r.Lists classesAt) (sound : r.Sound)
    (own : ∀ d ∈ classes, d.sourceFile = path)
    (apart : ∀ other, other ≠ path → NamesApart classes (classesAt other)) :
    (r.replace path classes).Lists (Function.update classesAt path classes) := by
  intro file
  rw [sound.namesIn_replace]
  by_cases same : path = file
  next =>
    subst same
    simp
  next =>
    have foreign : ∀ d ∈ classes, d.sourceFile ≠ file := fun d member here => same ((own d member).symm.trans here)
    rw [if_neg same, Function.update_of_ne (Ne.symm same), namesAfter_foreign foreign, ← lists file,
      List.filter_eq_self]
    intro name member
    rw [lists file] at member
    have elsewhere : name ∈ (classesAt file).map (·.name) := (mem_namesAfter member).resolve_left (by simp)
    obtain ⟨e, there, named⟩ := List.mem_map.mp elsewhere
    have absent : name ∉ classes.map (·.name) := by
      intro here
      obtain ⟨d, member, same_name⟩ := List.mem_map.mp here
      exact apart file (Ne.symm same) d member e there (same_name.trans named.symm)
    simpa using absent

theorem lists_readAll {sources : Sources} (own : Sources.Own sources) (names : Sources.Apart NamesApart sources) :
    (readAll sources).Lists (Sources.classesAt sources) := by
  induction sources using List.reverseRecOn with
  | nil =>
    intro file
    simp [readAll, empty, namesIn, Sources.classesAt, namesAfter]
  | append_singleton sources source ih =>
    rw [readAll_append, Sources.classesAt_append]
    apply (ih own.init names.init).replace (sound_readAll sources)
    next =>
      intro d member
      exact (own source (by simp) d member).1
    next =>
      intro other differs d member e elsewhere
      exact names.last differs elsewhere d member e elsewhere

theorem replace_classesAt {r : Registry} {sources : Sources} (own : Sources.Own sources)
    (names : Sources.Apart NamesApart sources) (alternates : Sources.Apart AlternatesApart sources)
    (alike : (readAll sources).Alike r) (sound : r.Sound) (path : String) :
    r.Alike (r.replace path (Sources.classesAt sources path)) := by
  have defines := (defines_readAll own names).of_alike alike
  have leads := (leads_readAll own names alternates).of_alike alike
  have lists : r.Lists (Sources.classesAt sources) := by
    intro file
    rw [alike.names, lists_readAll own names]
  have files : ∀ other, ∀ d ∈ Sources.classesAt sources other, d.sourceFile = other :=
    fun other d member => (own.classesAt member).1
  have apart {related : List Descriptor → List Descriptor → Prop} (holds : Sources.Apart related sources)
      {other : String} (differs : other ≠ path) {d e : Descriptor} (here : d ∈ Sources.classesAt sources path)
      (there : e ∈ Sources.classesAt sources other) :
      related (Sources.classesAt sources path) (Sources.classesAt sources other) :=
    holds _ (Sources.mem_of_classesAt here) _ (Sources.mem_of_classesAt there) (Ne.symm differs)
  have named : ∀ other, other ≠ path →
      NamesApart (Sources.classesAt sources path) (Sources.classesAt sources other) :=
    fun other differs d here e there => apart names differs here there d here e there
  have declared : ∀ other, other ≠ path →
      AlternatesApart (Sources.classesAt sources path) (Sources.classesAt sources other) :=
    fun other differs d here e there => apart alternates differs here there d here e there
  have defines' := defines.replace sound files (fun d member => (own.classesAt member).2) named
  have leads' := leads.replace defines sound files named declared
  have lists' := lists.replace sound (files path) named
  rw [Function.update_eq_self] at defines' leads' lists'
  refine ⟨defines.outline_eq defines', leads.alternates_eq leads', ?_⟩
  intro file
  rw [lists, lists']

end Registry

namespace Session

/-- No two files that a search reads have the same path. -/
def PathsApart (s : Session) (w : Workspace) : Prop :=
  ∀ x ∈ s.candidates w, ∀ y ∈ s.candidates w, (s.reading? w x).isSome → (s.reading? w y).isSome →
    s.pathOf x = s.pathOf y → x = y

instance (s : Session) (w : Workspace) : Decidable (s.PathsApart w) :=
  inferInstanceAs (Decidable (∀ x ∈ s.candidates w, ∀ y ∈ s.candidates w, (s.reading? w x).isSome →
    (s.reading? w y).isSome → s.pathOf x = s.pathOf y → x = y))

theorem mem_readings {s : Session} {w : Workspace} {path source : String} :
    (path, source) ∈ s.readings w ↔
      ∃ file ∈ s.candidates w, s.isExcluded file = false ∧ w.read file = .ok source ∧ path = s.pathOf file := by
  unfold readings reading?
  rw [List.mem_filterMap]
  refine exists_congr fun file => and_congr_right fun _ => ?_
  cases s.isExcluded file <;> cases w.read file <;> simp [Except.toOption, eq_comm, and_comm]

theorem PathsApart.source_eq {s : Session} {w : Workspace} (apart : s.PathsApart w) {path source other : String}
    (read : (path, source) ∈ s.readings w) (more : (path, other) ∈ s.readings w) : other = source := by
  obtain ⟨x, left, _, reads, path_eq⟩ := mem_readings.mp read
  obtain ⟨y, right, _, reads', path_eq'⟩ := mem_readings.mp more
  have same := apart x left y right (by simp_all [reading?, Except.toOption]) (by simp_all [reading?, Except.toOption])
    (path_eq.symm.trans path_eq')
  rw [← same, reads, Except.ok.injEq] at reads'
  exact reads'.symm

theorem mem_search {s : Session} {w : Workspace} {path : String} {classes : List Descriptor} :
    (path, classes) ∈ s.search w ↔ ∃ source a, (path, source) ∈ s.readings w ∧
      s.analyse path source = .ok a ∧ classes = a.classes.map (·.descriptor) := by
  unfold search
  rw [List.mem_filterMap]
  constructor
  next =>
    rintro ⟨file, candidate, found⟩
    unfold source? at found
    split at found
    next => cases found
    next allowed =>
      obtain ⟨own, found, same⟩ := Option.map_eq_some_iff.mp found
      obtain ⟨source, a, read, analysed, rfl⟩ := classesOf_eq_some found
      cases same
      exact ⟨source, a, mem_readings.mpr ⟨file, candidate, by simpa using allowed, read, rfl⟩, analysed, rfl⟩
  next =>
    rintro ⟨source, a, read, analysed, rfl⟩
    obtain ⟨file, candidate, allowed, reads, rfl⟩ := mem_readings.mp read
    exact ⟨file, candidate, by simp [source?, allowed, classesOf, reads, analysed]⟩

section
variable {start : Session} {w : Workspace} (apart : start.PathsApart w) {path source : String}
  (read : (path, source) ∈ start.readings w)
include apart read

theorem PathsApart.classesAt {a : Analysis} (analysed : start.analyse path source = .ok a) :
    Sources.classesAt (start.search w) path = a.classes.map (·.descriptor) := by
  have found : (start.search w).reverse.lookup path = some (a.classes.map (·.descriptor)) := by
    apply lookup_of_unique
    next => simpa using mem_search.mpr ⟨source, a, read, analysed, rfl⟩
    next =>
      intro classes more
      obtain ⟨other, b, again, analysed', rfl⟩ := mem_search.mp (List.mem_reverse.mp more)
      rw [apart.source_eq read again, analysed, Except.ok.injEq] at analysed'
      rw [analysed']
  rw [Sources.classesAt, found, Option.getD_some]

theorem PathsApart.lookup : (start.readings w).reverse.lookup path = some source := by
  apply lookup_of_unique
  next => simpa using read
  next => exact fun other more => apart.source_eq read (List.mem_reverse.mp more)

theorem PathsApart.importsRead {a : Analysis} (analysed : start.analyse path source = .ok a) :
    start.importsRead w path = a.existing := by
  rw [Session.importsRead, apart.lookup read]
  simp [ownImports, analysed, Except.toOption]

theorem PathsApart.mem_files : path ∈ (start.search w).map (·.1) ↔ ∃ a, start.analyse path source = .ok a := by
  rw [List.mem_map]
  constructor
  next =>
    rintro ⟨⟨own, classes⟩, member, rfl⟩
    obtain ⟨other, a, again, analysed, _⟩ := mem_search.mp member
    rw [apart.source_eq read again] at analysed
    exact ⟨a, analysed⟩
  next =>
    rintro ⟨a, analysed⟩
    exact ⟨_, mem_search.mpr ⟨source, a, read, analysed, rfl⟩, rfl⟩

end

theorem lookup_of_silent {cache : Cache} {path fingerprint : String} {r : FileRecord}
    (recorded : cache[path]?.map FileRecord.silent = some r) :
    cache.lookup path fingerprint = Cache.lookup ((∅ : Cache).insert path r) path fingerprint := by
  obtain ⟨old, found, rfl⟩ := Option.map_eq_some_iff.mp recorded
  unfold Cache.lookup
  rw [found, Table.get_insert, if_pos rfl]
  rfl

theorem lookup_discover {start : Session} {w : Workspace} (apart : start.PathsApart w) {path source : String}
    (read : (path, source) ∈ start.readings w) :
    (start.discover w).2.cache.lookup path (Digest.fingerprint source) =
      match start.analyse path source with
      | .error problem => .failed problem
      | .ok _ => .miss := by
  obtain ⟨t, _, notes, after⟩ := start.discover_eq w
  have recorded := settles_record w ((start.search w).map (·.1)) t.session path
  rw [← after, notes.records, apart.lookup read] at recorded
  simp only [Option.map_some] at recorded
  cases analysed : start.analyse path source with
  | error problem =>
    have unknown : path ∉ (start.search w).map (·.1) := by
      intro listed
      obtain ⟨a, program⟩ := (apart.mem_files read).mp listed
      rw [analysed] at program
      cases program
    rw [if_neg unknown] at recorded
    rw [lookup_of_silent recorded, Cache.lookup, Table.get_insert, if_pos rfl]
    unfold recordOf
    rw [analysed]
    exact if_neg (by simp only [FileRecord.silent, failedRecord, ne_eq, not_true_eq_false, not_false_eq_true])
  | ok a =>
    rw [if_pos ((apart.mem_files read).mpr ⟨a, analysed⟩)] at recorded
    rw [lookup_of_silent recorded, Cache.lookup, Table.get_insert, if_pos rfl]
    unfold recordOf
    rw [analysed]
    exact if_neg (by simp only [FileRecord.silent, ne_eq, not_true_eq_false, not_false_eq_true])

theorem get_adopt (s : Session) (path source : String) (a : Analysis) (diagnostics : List Diagnostic) (other : String) :
    (s.adopt path source a diagnostics).cache[other]? =
      if path = other then some {
        path
        fingerprint := Digest.fingerprint source
        definedClasses := a.classes.map (·.descriptor.name)
        existingImports := a.existing
        state := .classesExtracted
        diagnostics }
      else s.cache[other]? := Cache.get_put _ _ _

theorem claims_discover_shared {start : Session} (shared : start.config.dedup = .file) (w : Workspace) :
    (start.discover w).2.claims = .ofPolicy .file := by
  obtain ⟨t, _, notes, after⟩ := start.discover_eq w
  rw [after]
  induction (start.search w).map (·.1) using List.reverseRecOn with
  | nil => rw [List.foldl_nil, notes.claims, shared]
  | append_singleton paths path ih =>
    rw [List.foldl_append, List.foldl_cons, List.foldl_nil]
    have granted := ((paths.foldl (settle w) t.session).resolveImports_resolves w path).granted
    refine (granted.shared (by rw [ih]; rfl)).trans ?_
    rw [ih]
    rfl

/-- What a session keeps after a search while files are transformed. -/
structure Steady (start : Session) (w : Workspace) (s : Session) : Prop where
  settings : SameSettings (start.discover w).2 s
  registry : (start.discover w).2.registry.Alike s.registry
  sound : s.registry.Sound
  claims : s.claims = (start.discover w).2.claims
  -- whatever the cache answers is what a transformation right after the search gives
  known : ∀ {path source : String}, (path, source) ∈ start.readings w →
    match s.cache.lookup path (Digest.fingerprint source) with
    | .hit o => (start.discover w).2.outcome w path source = .ok o
    | .failed problem => (start.discover w).2.outcome w path source = .error problem
    | .miss => ∃ a, start.analyse path source = .ok a

theorem steady_discover {start : Session} {w : Workspace} (apart : start.PathsApart w) :
    Steady start w (start.discover w).2 where
  settings := .refl _
  registry := .refl _
  sound := (discovered_discover start w).sound
  claims := rfl
  known := by
    intro path source read
    have looked := lookup_discover apart read
    have settings := (discovered_discover start w).settings
    generalize (start.discover w).2 = s at settings looked ⊢
    rw [looked]
    unfold outcome
    rw [settings.analyse]
    cases start.analyse path source with
    | error problem => rfl
    | ok a => exact ⟨a, rfl⟩

section
variable {start s : Session} {w : Workspace} (steady : Steady start w s) (apart : start.PathsApart w)
  {path source : String} {a : Analysis} (read : (path, source) ∈ start.readings w)
  (analysed : start.analyse path source = .ok a)
include steady

theorem Steady.outcome (path source : String) :
    s.outcome w path source = (start.discover w).2.outcome w path source := by
  have view : SameView path (start.discover w).2 s := ⟨steady.settings, steady.registry, by rw [steady.claims]⟩
  exact view.outcome (discovered_discover start w).sound steady.sound (.refl w) source

include apart read analysed

theorem Steady.adopt_alike (names : Sources.Apart NamesApart (start.search w))
    (alternates : Sources.Apart AlternatesApart (start.search w)) :
    (start.discover w).2.registry.Alike (s.adopt path source a []).registry := by
  have again := Registry.replace_classesAt (search_own start w) names alternates
    ((discovered_discover start w).registry.trans steady.registry) steady.sound path
  rw [apart.classesAt read analysed] at again
  exact steady.registry.trans again

theorem Steady.claims_restored (names : Sources.Apart NamesApart (start.search w))
    (alternates : Sources.Apart AlternatesApart (start.search w)) :
    ((s.adopt path source a []).resolveImports w path).2.claims = (start.discover w).2.claims := by
  -- A file gets back exactly the paths that it had.
  have claims : (s.adopt path source a []).claims = (start.discover w).2.claims := steady.claims
  have policy : (start.discover w).2.claims.policy = start.config.dedup :=
    (discover_linked start w).policy.trans (congrArg (·.dedup) (discovered_discover start w).settings.config)
  have granted := ((s.adopt path source a []).resolveImports_resolves w path).granted
  rw [claims] at granted
  cases dedup : start.config.dedup with
  | file =>
    rw [dedup] at policy
    rw [granted.shared ((Claims.policy_release _ _).trans policy), claims_discover_shared dedup]
    rfl
  | global =>
    rw [dedup] at policy
    have needs : (s.adopt path source a []).needs w path = (start.discover w).2.needs w path := by
      have settings : SameSettings (start.discover w).2 (s.adopt path source a []) :=
        steady.settings.trans ⟨rfl, rfl, rfl, rfl, rfl⟩
      apply needs_eq settings (steady.adopt_alike apart read analysed names alternates)
      rw [adopt_existing, existing_discover, apart.importsRead read analysed]
    have same : ((s.adopt path source a []).resolveImports w path).2.claims.policy =
        (start.discover w).2.claims.policy := granted.policy.trans (Claims.policy_release _ _)
    apply Claims.ext_owner same
    intro p
    have once : (s.adopt path source a []).claims.policy = .global := by rw [claims, policy]
    rw [owner_resolveImports once, claims, needs]
    -- the file needs all that it had, and what it needs and did not have is had by another file
    have owner := owner_discover dedup w p
    cases owned : (start.discover w).2.claims.owner? p with
    | none =>
      rw [owned, eq_comm, List.find?_eq_none] at owner
      have unneeded := owner path ((apart.mem_files read).mpr ⟨a, analysed⟩)
      have none : p ∉ (start.discover w).2.needs w path := by simpa using unneeded
      simp [none]
    | some file =>
      rw [owned, eq_comm] at owner
      have needed : p ∈ (start.discover w).2.needs w file := by simpa using List.find?_some owner
      by_cases same : file = path
      next =>
        rw [same] at needed
        simp [same, Option.filter_some, needed]
      next => simp [same, Option.filter_some]

theorem Steady.transformed (names : Sources.Apart NamesApart (start.search w))
    (alternates : Sources.Apart AlternatesApart (start.search w)) (cache : Cache)
    (others : ∀ other : String, other ≠ path → cache[other]? = s.cache[other]?)
    (own : cache.lookup path (Digest.fingerprint source) = .miss ∨
      ∃ o, cache.lookup path (Digest.fingerprint source) = .hit o ∧ s.outcome w path source = .ok o) :
    Steady start w { ((s.adopt path source a []).resolveImports w path).2 with cache } where
  settings := steady.settings.trans ⟨rfl, rfl, rfl, rfl, rfl⟩
  registry := (steady.adopt_alike apart read analysed names alternates).trans (Registry.setAllImports_alike _ _)
  sound := (steady.sound.replace path _).setAllImports _
  claims := steady.claims_restored apart read analysed names alternates
  known := by
    intro other text again
    by_cases same : other = path
    next =>
      subst same
      rw [apart.source_eq read again]
      rcases own with miss | ⟨o, hit, given⟩
      next =>
        simp only [miss]
        exact ⟨a, analysed⟩
      next =>
        simp only [hit]
        rw [← steady.outcome, given]
    next =>
      have unchanged : cache.lookup other (Digest.fingerprint text) =
          s.cache.lookup other (Digest.fingerprint text) := by
        unfold Cache.lookup
        rw [others other same]
      simp only [unchanged]
      exact steady.known again

theorem Steady.transformNew (names : Sources.Apart NamesApart (start.search w))
    (alternates : Sources.Apart AlternatesApart (start.search w)) :
    Steady start w (s.transformNew w path source).2 := by
  have given := transformNew_outcome s w path source
  have analysed' : s.analyse path source = .ok a := by
    rw [steady.settings.analyse, (discovered_discover start w).settings.analyse, analysed]
  rw [transformNew_eq, analysed'] at given ⊢
  simp only at given ⊢
  have others (f : FileRecord → FileRecord) (other : String) (differs : other ≠ path) :
      ((s.adopt path source a []).cache.update path f)[other]? = s.cache[other]? := by
    rw [Cache.get_update, if_neg (Ne.symm differs), get_adopt, if_neg (Ne.symm differs)]
  cases checked : s.checkUnmapped ((s.adopt path source a []).resolveImports w path).1.missing.count with
  | error problem =>
    apply steady.transformed apart read analysed names alternates
      ((s.adopt path source a []).cache.update path fun r => { r with state := .importsResolved }) (others _)
    left
    unfold Cache.lookup
    rw [Cache.get_update, if_pos rfl, get_adopt, if_pos rfl]
    simp
  | ok _ =>
    rw [checked] at given
    let output := s.render path source a ((s.adopt path source a []).resolveImports w path).1
    apply steady.transformed apart read analysed names alternates
      ((s.adopt path source a []).cache.update path fun r =>
        { r with diagnostics := output.diagnostics, output := some output, state := .cached }) (others _)
    refine .inr ⟨output, ?_, given.symm⟩
    unfold Cache.lookup
    rw [Cache.get_update, if_pos rfl, get_adopt, if_pos rfl]
    simp

end

def answers (s : Session) (w : Workspace) : List (String × String) → List (Except Problem (Option TransformOutput))
  | [] => []
  | (id, source) :: rest => (s.transform w id source).1 :: (s.transform w id source).2.answers w rest

def Asks (s : Session) (w : Workspace) (request : String × String) : Prop :=
  s.fileOf request.1 ∈ s.candidates w ∧ s.isExcluded (s.fileOf request.1) = false ∧
    w.read (s.fileOf request.1) = .ok request.2

/-- The answer to a request if nothing is known of the outcome. -/
def reply (s : Session) (w : Workspace) (request : String × String) : Except Problem (Option TransformOutput) :=
  if WebPath.isAlwaysSkipped request.1 || !s.inScope (s.fileOf request.1) then .ok none
  else (s.outcome w (s.pathOf (s.fileOf request.1)) request.2).map some

section
variable {start s : Session} {w : Workspace} (apart : start.PathsApart w)
  (names : Sources.Apart NamesApart (start.search w)) (alternates : Sources.Apart AlternatesApart (start.search w))
include apart names alternates

theorem Steady.transform (steady : Steady start w s) {id source : String} (asks : start.Asks w (id, source)) :
    (s.transform w id source).1 = (start.discover w).2.reply w (id, source) ∧
      Steady start w (s.transform w id source).2 := by
  unfold Session.transform reply
  simp only [steady.settings.fileOf, steady.settings.inScope, steady.settings.pathOf]
  split
  next => exact ⟨rfl, steady⟩
  next =>
    rw [(discovered_discover start w).settings.fileOf, (discovered_discover start w).settings.pathOf]
    have read : (start.pathOf (start.fileOf id), source) ∈ start.readings w :=
      mem_readings.mpr ⟨start.fileOf id, asks.1, asks.2.1, asks.2.2, rfl⟩
    have known := steady.known read
    cases looked : s.cache.lookup (start.pathOf (start.fileOf id)) (Digest.fingerprint source) with
    | hit o =>
      simp only [looked] at known
      exact ⟨by rw [known]; rfl, steady⟩
    | failed problem =>
      simp only [looked] at known
      exact ⟨by rw [known]; rfl, steady⟩
    | miss =>
      simp only [looked] at known
      obtain ⟨a, analysed⟩ := known
      refine ⟨?_, steady.transformNew apart read analysed names alternates⟩
      rw [transformNew_outcome, steady.outcome]

theorem Steady.answers (steady : Steady start w s) {requests : List (String × String)}
    (asked : ∀ request ∈ requests, start.Asks w request) :
    s.answers w requests = requests.map ((start.discover w).2.reply w) := by
  induction requests generalizing s with
  | nil => rfl
  | cons request rest ih =>
    obtain ⟨id, source⟩ := request
    obtain ⟨answer, still⟩ := steady.transform apart names alternates (asked (id, source) (by simp))
    rw [Session.answers, List.map_cons, answer, ih still fun request member => asked request (by simp [member])]

end

/-- If no two files that a search reads have the same path, define the same class or declare the same alternate name,
then the answer to a request for one of them, with the source that is there, does not depend on what was asked for
before: requests for the same file have the same answer, wherever they stand in whatever sequences. -/
theorem answers_in_any_order (start : Session) (w : Workspace) (paths : start.PathsApart w)
    (names : Sources.Apart NamesApart (start.search w)) (alternates : Sources.Apart AlternatesApart (start.search w))
    (xs ys : List (String × String)) (asked : ∀ request ∈ xs ++ ys, start.Asks w request) :
    let s := (start.discover w).2
    ∀ (i j : Nat) (x y : String × String), xs[i]? = some x → ys[j]? = some y → start.fileOf x.1 = start.fileOf y.1 →
      WebPath.isAlwaysSkipped x.1 = WebPath.isAlwaysSkipped y.1 →
      ∃ answer, (s.answers w xs)[i]? = some answer ∧ (s.answers w ys)[j]? = some answer := by
  intro s i j x y left right same skipped
  have steady : Steady start w s := steady_discover paths
  rw [steady.answers paths names alternates (fun request member => asked request (List.mem_append_left ys member)),
    steady.answers paths names alternates (fun request member => asked request (List.mem_append_right xs member)),
    List.getElem?_map, List.getElem?_map, left, right]
  refine ⟨_, rfl, ?_⟩
  -- the sources are the same, as they are those of one file
  have first := asked x (List.mem_append_left ys (List.mem_of_getElem? left))
  have second := asked y (List.mem_append_right xs (List.mem_of_getElem? right))
  have source : y.2 = x.2 := by
    have reads := second.2.2
    rw [← same, first.2.2, Except.ok.injEq] at reads
    exact reads.symm
  have file : s.fileOf y.1 = s.fileOf x.1 := by
    rw [(discovered_discover start w).settings.fileOf, (discovered_discover start w).settings.fileOf, same]
  simp only [Option.map_some, reply]
  rw [skipped, file, source]

set_option maxRecDepth 100000 in
theorem answers_in_two_orders :
    let config := { Config.default with included := ["/a/*.js", "/x/*.js"] }
    let a := "Ext.define('A',\x7buses:'X'\x7d)"
    let x := "Ext.define('X',\x7b\x7d)"
    let w : Workspace := ⟨[
      ("a", .directory [("A.js", .file (.text a))]), ("x", .directory [("X.js", .file (.text x))])]⟩
    let xs := [("/a/A.js", a), ("/x/X.js", x)]
    let ys := [("/x/X.js", x), ("/a/A.js", a), ("/a/A.js", a)]
    ∃ start, create "/r" config = .ok start ∧ start.PathsApart w ∧ Sources.Apart NamesApart (start.search w) ∧
      Sources.Apart AlternatesApart (start.search w) ∧ (∀ request ∈ xs ++ ys, start.Asks w request) ∧
      let s := (start.discover w).2
      ∃ o, (s.answers w xs)[0]? = some (.ok (some o)) ∧ o.imports = ["/x/X.js"] ∧
        (s.answers w ys)[2]? = some (.ok (some o)) := by
  -- A class is asked for before the class that it uses, and after it and once more.
  intro config a x w xs ys
  have runs : ∃ start, create "/r" config = .ok start ∧
      (start.PathsApart w ∧ Sources.Apart NamesApart (start.search w) ∧
        Sources.Apart AlternatesApart (start.search w)) ∧
      (∀ request ∈ xs ++ ys, start.Asks w request) ∧
      ((start.discover w).2.answers w xs)[0]?.bind (fun answer => (answer.toOption.bind id).map (·.imports)) =
        some ["/x/X.js"] := by
    refine ⟨_, rfl, by decide +kernel, ?_, by decide +kernel⟩
    simp only [xs, ys, List.cons_append, List.nil_append, List.forall_mem_cons, Asks]
    decide +kernel
  obtain ⟨start, created, ⟨paths, names, alternates⟩, asked, imports⟩ := runs
  refine ⟨start, created, paths, names, alternates, asked, ?_⟩
  obtain ⟨answer, first, second⟩ := answers_in_any_order start w paths names alternates xs ys asked 0 2
    ("/a/A.js", a) ("/a/A.js", a) rfl rfl rfl rfl
  rw [first] at imports
  rcases answer with problem | none | o
  next => cases imports
  next => cases imports
  next => exact ⟨o, first, by simpa [Except.toOption] using imports, second⟩

end Session

end ClassLinker
