import Mathlib.Data.List.Induction
import Mathlib.Logic.Function.Basic
import ClassLinker.Proofs.Missing

set_option autoImplicit false

/-!
What a search for all classes finds. If no two files define the same name, the registry afterwards is the union of
what the files define, in whatever order they were read.
-/

namespace ClassLinker

abbrev Sources := List (String × List Descriptor)

namespace Sources

/-- The classes of the file at a path. If it is read several times, the last time counts. -/
def classesAt (sources : Sources) (path : String) : List Descriptor := (sources.reverse.lookup path).getD []

theorem classesAt_append (sources : Sources) (path : String) (classes : List Descriptor) :
    Sources.classesAt (sources ++ [(path, classes)]) = Function.update (Sources.classesAt sources) path classes := by
  funext other
  unfold Sources.classesAt
  rw [List.reverse_append, List.reverse_singleton, List.singleton_append, List.lookup_cons, Function.update_apply]
  by_cases same : other = path
  next => simp [same]
  next =>
    have differs : (other == path) = false := by simpa using same
    simp [same, differs]

theorem mem_of_classesAt {sources : Sources} {path : String} {d : Descriptor} (member : d ∈ Sources.classesAt sources path) :
    (path, Sources.classesAt sources path) ∈ sources := by
  unfold Sources.classesAt at member ⊢
  cases found : sources.reverse.lookup path with
  | none => simp [found] at member
  | some classes =>
    rw [List.lookup_eq_some_iff] at found
    obtain ⟨before, after, split, _⟩ := found
    rw [Option.getD_some, ← List.mem_reverse, split]
    simp

theorem classesAt_filter (sources : Sources) {path other : String} (differs : path ≠ other) :
    Sources.classesAt (sources.filter (·.1 ≠ other)) path = Sources.classesAt sources path := by
  unfold Sources.classesAt
  congr 1
  rw [← List.filter_reverse]
  induction sources.reverse with
  | nil => rfl
  | cons source rest ih =>
    obtain ⟨own, classes⟩ := source
    by_cases same : own = other
    next =>
      have foreign : (path == own) = false := by simpa [same] using differs
      rw [List.filter_cons_of_neg (by simp [same]), ih, List.lookup_cons, foreign]
    next => rw [List.filter_cons_of_pos (by simp [same]), List.lookup_cons, List.lookup_cons, ih]

def Apart (related : List Descriptor → List Descriptor → Prop) (sources : Sources) : Prop :=
  ∀ x ∈ sources, ∀ y ∈ sources, x.1 ≠ y.1 → related x.2 y.2

/-- The classes of a file belong to it and import nothing yet. -/
def Own (sources : Sources) : Prop := ∀ x ∈ sources, ∀ d ∈ x.2, d.sourceFile = x.1 ∧ d.imports = []

theorem Own.classesAt {sources : Sources} (own : Sources.Own sources) {path : String} {d : Descriptor}
    (member : d ∈ Sources.classesAt sources path) : d.sourceFile = path ∧ d.imports = [] :=
  own _ (mem_of_classesAt member) d member

section

variable {sources : Sources} {source : String × List Descriptor}
  {related : List Descriptor → List Descriptor → Prop}

theorem Own.init (own : Sources.Own (sources ++ [source])) : Sources.Own sources :=
  fun x member => own x (by simp [member])

theorem Apart.init (apart : Sources.Apart related (sources ++ [source])) : Sources.Apart related sources :=
  fun x left y right => apart x (by simp [left]) y (by simp [right])

theorem Apart.last (apart : Sources.Apart related (sources ++ [source])) {other : String} (differs : other ≠ source.1)
    {e : Descriptor} (elsewhere : e ∈ Sources.classesAt sources other) :
    related source.2 (Sources.classesAt sources other) :=
  apart source (by simp) (other, Sources.classesAt sources other) (by simp [mem_of_classesAt elsewhere]) differs.symm

end

end Sources

def NamesApart (xs ys : List Descriptor) : Prop := ∀ d ∈ xs, ∀ e ∈ ys, d.name ≠ e.name

def AlternatesApart (xs ys : List Descriptor) : Prop :=
  ∀ d ∈ xs, ∀ e ∈ ys, ∀ key ∈ d.alternateNames, key ∉ e.alternateNames

instance (sources : Sources) : Decidable (Sources.Apart NamesApart sources) :=
  inferInstanceAs (Decidable (∀ x ∈ sources, ∀ y ∈ sources, x.1 ≠ y.1 → ∀ d ∈ x.2, ∀ e ∈ y.2, d.name ≠ e.name))

instance (sources : Sources) : Decidable (Sources.Apart AlternatesApart sources) :=
  inferInstanceAs (Decidable (∀ x ∈ sources, ∀ y ∈ sources, x.1 ≠ y.1 → ∀ d ∈ x.2, ∀ e ∈ y.2,
    ∀ key ∈ d.alternateNames, key ∉ e.alternateNames))

namespace Registry

def Defines (r : Registry) (classesAt : String → List Descriptor) : Prop :=
  ∀ name d, (r.get? name).map Descriptor.bare = some d ↔ ∃ path, lastDefined (classesAt path) name = some d

def Leads (r : Registry) (classesAt : String → List Descriptor) : Prop :=
  ∀ key target, r.alternates[key]? = some target ↔ ∃ path, leadAfter .alternate (classesAt path) key none = some target

theorem Defines.outline_eq {r r' : Registry} {classesAt : String → List Descriptor} (defines : r.Defines classesAt)
    (defines' : r'.Defines classesAt) : r'.outline = r.outline := by
  apply Table.ext_get
  intro name
  rw [get_outline, get_outline]
  apply Option.ext
  intro d
  rw [defines, defines']

theorem Leads.alternates_eq {r r' : Registry} {classesAt : String → List Descriptor} (leads : r.Leads classesAt)
    (leads' : r'.Leads classesAt) : r'.alternates = r.alternates := by
  apply Table.ext_get
  intro key
  apply Option.ext
  intro target
  rw [leads, leads']

theorem Defines.of_alike {r r' : Registry} {classesAt : String → List Descriptor} (defines : r.Defines classesAt)
    (alike : r.Alike r') : r'.Defines classesAt := by
  intro name d
  rw [alike.get, defines]

theorem Leads.of_alike {r r' : Registry} {classesAt : String → List Descriptor} (leads : r.Leads classesAt)
    (alike : r.Alike r') : r'.Leads classesAt := by
  intro key target
  rw [alike.alternates, leads]

section
variable {r : Registry} {classesAt : String → List Descriptor} {path : String} {classes : List Descriptor}

theorem Defines.replace (defines : r.Defines classesAt) (sound : r.Sound)
    (own : ∀ other, ∀ d ∈ classesAt other, d.sourceFile = other) (fresh : ∀ d ∈ classes, d.imports = [])
    (apart : ∀ other, other ≠ path → NamesApart classes (classesAt other)) :
    (r.replace path classes).Defines (Function.update classesAt path classes) := by
  intro name d
  rw [sound.get_replace]
  cases new : lastDefined classes name with
  | some e =>
    obtain ⟨member, named⟩ := lastDefined_eq_some new
    have bare : e.bare = e := by
      have none := fresh e member
      cases e
      cases none
      rfl
    rw [Option.some_or, Option.map_some, bare]
    constructor
    next =>
      intro same
      exact ⟨path, by rw [Function.update_self, new, same]⟩
    next =>
      rintro ⟨other, found⟩
      by_cases same : other = path
      next =>
        rw [same, Function.update_self, new] at found
        exact found
      next =>
        rw [Function.update_of_ne same] at found
        obtain ⟨elsewhere, other_named⟩ := lastDefined_eq_some found
        exact absurd (named.trans other_named.symm) (apart other same e member d elsewhere)
  | none =>
    rw [Option.none_or, Option.map_eq_some_iff]
    constructor
    next =>
      rintro ⟨x, kept, bare⟩
      rw [Option.filter_eq_some_iff] at kept
      obtain ⟨present, foreign⟩ := kept
      obtain ⟨other, found⟩ := (defines name d).mp (by rw [present, Option.map_some, bare])
      have source : x.sourceFile = other := by
        rw [Descriptor.sourceFile_of_bare (e := d) (by rw [← bare, Descriptor.bare_bare])]
        exact own other d (lastDefined_eq_some found).1
      have differs : other ≠ path := by
        rintro rfl
        simp [source] at foreign
      exact ⟨other, by rw [Function.update_of_ne differs, found]⟩
    next =>
      rintro ⟨other, found⟩
      have differs : other ≠ path := by
        rintro rfl
        rw [Function.update_self, new] at found
        cases found
      rw [Function.update_of_ne differs] at found
      obtain ⟨x, present, bare⟩ := Option.map_eq_some_iff.mp ((defines name d).mpr ⟨other, found⟩)
      have source : x.sourceFile = other := by
        rw [Descriptor.sourceFile_of_bare (e := d) (by rw [← bare, Descriptor.bare_bare])]
        exact own other d (lastDefined_eq_some found).1
      refine ⟨x, ?_, bare⟩
      rw [Option.filter_eq_some_iff]
      exact ⟨present, by simpa [source] using differs⟩

theorem Defines.target {other key target : String} (defines : r.Defines classesAt)
    (own : ∀ other, ∀ d ∈ classesAt other, d.sourceFile = other)
    (lead : leadAfter .alternate (classesAt other) key none = some target) :
    ∃ d, r.get? target = some d ∧ d.sourceFile = other := by
  obtain ⟨_, member⟩ := leadAfter_none lead
  rw [← lastDefined_isSome, Option.isSome_iff_exists] at member
  obtain ⟨e, found⟩ := member
  obtain ⟨d, present, bare⟩ := Option.map_eq_some_iff.mp ((defines target e).mpr ⟨other, found⟩)
  refine ⟨d, present, ?_⟩
  rw [Descriptor.sourceFile_of_bare (e := e) (by rw [← bare, Descriptor.bare_bare])]
  exact own other e (lastDefined_eq_some found).1

theorem Leads.replace (leads : r.Leads classesAt) (defines : r.Defines classesAt) (sound : r.Sound)
    (own : ∀ other, ∀ d ∈ classesAt other, d.sourceFile = other)
    (names : ∀ other, other ≠ path → NamesApart classes (classesAt other))
    (alternates : ∀ other, other ≠ path → AlternatesApart classes (classesAt other)) :
    (r.replace path classes).Leads (Function.update classesAt path classes) := by
  intro key target
  rw [sound.alternates_replace]
  -- what is left once the classes of the file are removed comes from other files
  have rest (t : String) : r.alternates[key]?.filter (· ∉ r.namesIn path) = some t ↔
      ∃ other, other ≠ path ∧ leadAfter .alternate (classesAt other) key none = some t := by
    rw [Option.filter_eq_some_iff, leads]
    constructor
    next =>
      rintro ⟨⟨other, lead⟩, foreign⟩
      refine ⟨other, ?_, lead⟩
      rintro rfl
      obtain ⟨d, present, source⟩ := defines.target own lead
      have listed := sound.coherent.owned present
      rw [source] at listed
      simp [listed] at foreign
    next =>
      rintro ⟨other, differs, lead⟩
      refine ⟨⟨other, lead⟩, ?_⟩
      obtain ⟨d, present, source⟩ := defines.target own lead
      have foreign : t ∉ r.namesIn path := fun listed =>
        differs (source.symm.trans (sound.coherent.file_unique listed present))
      simpa using foreign
  by_cases declared : Declares .alternate classes key
  next =>
    rw [leadAfter_declared declared _ none]
    constructor
    next =>
      intro lead
      exact ⟨path, by rw [Function.update_self, lead]⟩
    next =>
      rintro ⟨other, lead⟩
      by_cases same : other = path
      next =>
        rw [same, Function.update_self] at lead
        exact lead
      next =>
        rw [Function.update_of_ne same] at lead
        obtain ⟨⟨e, member, has⟩, _⟩ := leadAfter_none lead
        obtain ⟨d, here, declares⟩ := declared
        exact absurd has (alternates other same d here e member key declares)
  next =>
    rw [leadAfter_undeclared declared, Option.filter_eq_some_iff, rest]
    constructor
    next =>
      rintro ⟨⟨other, differs, lead⟩, _⟩
      exact ⟨other, by rw [Function.update_of_ne differs, lead]⟩
    next =>
      rintro ⟨other, lead⟩
      have differs : other ≠ path := by
        rintro rfl
        rw [Function.update_self] at lead
        exact declared (leadAfter_none lead).1
      rw [Function.update_of_ne differs] at lead
      refine ⟨⟨other, differs, lead⟩, ?_⟩
      have absent : target ∉ classes.map (·.name) := by
        intro here
        obtain ⟨d, member, named⟩ := List.mem_map.mp here
        obtain ⟨e, elsewhere, other_named⟩ := List.mem_map.mp (leadAfter_none lead).2
        exact names other differs d member e elsewhere (named.trans other_named.symm)
      simpa using absent

end

def readAll (sources : Sources) : Registry :=
  sources.foldl (fun r (path, classes) => r.replace path classes) empty

theorem readAll_append (sources : Sources) (path : String) (classes : List Descriptor) :
    readAll (sources ++ [(path, classes)]) = (readAll sources).replace path classes := by
  simp [readAll]

theorem sound_readAll (sources : Sources) : (readAll sources).Sound := by
  induction sources using List.reverseRecOn with
  | nil => exact sound_empty
  | append_singleton sources source ih =>
    rw [readAll_append]
    exact ih.replace _ _

theorem defines_readAll {sources : Sources} (own : Sources.Own sources) (apart : Sources.Apart NamesApart sources) :
    (readAll sources).Defines (Sources.classesAt sources) := by
  induction sources using List.reverseRecOn with
  | nil =>
    intro name d
    simp [readAll, empty, get?, Sources.classesAt, lastDefined]
  | append_singleton sources source ih =>
    rw [readAll_append, Sources.classesAt_append]
    apply (ih own.init apart.init).replace (sound_readAll sources)
    next =>
      intro other d member
      exact (own.init.classesAt member).1
    next =>
      intro d member
      exact (own source (by simp) d member).2
    next =>
      intro other differs d member e elsewhere
      exact apart.last differs elsewhere d member e elsewhere

theorem leads_readAll {sources : Sources} (own : Sources.Own sources) (names : Sources.Apart NamesApart sources)
    (alternates : Sources.Apart AlternatesApart sources) : (readAll sources).Leads (Sources.classesAt sources) := by
  induction sources using List.reverseRecOn with
  | nil =>
    intro key target
    simp [readAll, empty, Sources.classesAt, leadAfter]
  | append_singleton sources source ih =>
    rw [readAll_append, Sources.classesAt_append]
    apply (ih own.init names.init alternates.init).replace (defines_readAll own.init names.init) (sound_readAll sources)
    next =>
      intro other d member
      exact (own.init.classesAt member).1
    next =>
      intro other differs d member e elsewhere
      exact names.last differs elsewhere d member e elsewhere
    next =>
      intro other differs d member e elsewhere
      exact alternates.last differs elsewhere d member e elsewhere

theorem sourceFile_readAll {sources : Sources} (own : Sources.Own sources) {name : String} {d : Descriptor}
    (found : (readAll sources).get? name = some d) : d.sourceFile ∈ sources.map (·.1) := by
  induction sources using List.reverseRecOn with
  | nil => simp [readAll, empty, get?] at found
  | append_singleton sources source ih =>
    rw [readAll_append, (sound_readAll sources).get_replace, Option.or_eq_some_iff] at found
    rcases found with new | ⟨_, old⟩
    next =>
      have source_eq := (own source (by simp) d (lastDefined_eq_some new).1).1
      simp [source_eq]
    next =>
      rw [Option.filter_eq_some_iff] at old
      have earlier := ih (fun x member => own x (by simp [member])) old.1
      rw [List.map_append]
      exact List.mem_append_left _ earlier

end Registry

namespace Session

def classesOf (s : Session) (w : Workspace) (file : String) : Option (List Descriptor) :=
  match w.read file with
  | .error _ => none
  | .ok source =>
    match s.analyse (s.pathOf file) source with
    | .error _ => none
    | .ok a => some (a.classes.map (·.descriptor))

def source? (s : Session) (w : Workspace) (file : String) : Option (String × List Descriptor) :=
  if s.isExcluded file then none else (s.classesOf w file).map (s.pathOf file, ·)

def search (s : Session) (w : Workspace) : Sources := (s.candidates w).filterMap (s.source? w)

theorem classesOf_eq_some {s : Session} {w : Workspace} {file : String} {classes : List Descriptor}
    (found : s.classesOf w file = some classes) :
    ∃ source a, w.read file = .ok source ∧ s.analyse (s.pathOf file) source = .ok a ∧
      classes = a.classes.map (·.descriptor) := by
  unfold classesOf at found
  split at found
  next => cases found
  next source read =>
    split at found
    next => cases found
    next a analysed =>
      cases found
      exact ⟨source, a, read, analysed, rfl⟩

theorem classesOf_own {s : Session} {w : Workspace} {file : String} {classes : List Descriptor}
    (found : s.classesOf w file = some classes) :
    ∀ d ∈ classes, d.sourceFile = s.pathOf file ∧ d.imports = [] := by
  obtain ⟨source, a, _, analysed, rfl⟩ := classesOf_eq_some found
  exact analyse_classes analysed

theorem SameSettings.classesOf {s s' : Session} (same : SameSettings s s') (w : Workspace) (file : String) :
    s'.classesOf w file = s.classesOf w file := by
  unfold Session.classesOf
  simp only [same.pathOf, same.analyse]

theorem SameSettings.source? {s s' : Session} (same : SameSettings s s') (w : Workspace) (file : String) :
    s'.source? w file = s.source? w file := by
  unfold Session.source?
  rw [same.isExcluded, same.classesOf, same.pathOf]

theorem SameSettings.search {s s' : Session} (same : SameSettings s s') (w : Workspace) :
    s'.search w = s.search w := by
  unfold Session.search
  rw [same.candidates, funext (same.source? w)]

theorem search_own (s : Session) (w : Workspace) : Sources.Own (s.search w) := by
  intro source member d defined
  obtain ⟨file, _, found⟩ := List.mem_filterMap.mp member
  unfold source? at found
  split at found
  next => cases found
  next =>
    rw [Option.map_eq_some_iff] at found
    obtain ⟨classes, found, rfl⟩ := found
    exact classesOf_own found d defined

structure Tally.Has (s : Session) (t : Tally) (sources : Sources) : Prop where
  settings : SameSettings s t.session
  registry : t.session.registry = Registry.readAll sources
  missing : ∀ name : String, t.session.missing[name]? = none
  discovered : t.discovered = sources.map (·.1)

theorem Tally.Has.add {s : Session} {t : Tally} {sources : Sources} (has : t.Has s sources) (w : Workspace)
    (file : String) : (t.add w file).Has s (sources ++ (s.source? w file).toList) := by
  unfold Tally.add
  rw [has.settings.isExcluded]
  cases excluded : s.isExcluded file with
  | true =>
    have nothing : s.source? w file = none := by simp [source?, excluded]
    rw [nothing]
    exact ⟨has.settings, by simpa using has.registry, has.missing, by simpa using has.discovered⟩
  | false =>
    simp only [Bool.false_eq_true, if_false]
    cases read : w.read file with
    | error fault =>
      have nothing : s.source? w file = none := by simp [source?, excluded, classesOf, read]
      rw [nothing]
      exact ⟨has.settings, by simpa using has.registry, has.missing, by simpa using has.discovered⟩
    | ok source =>
      simp only
      unfold define
      rw [has.settings.pathOf, has.settings.analyse]
      cases analysed : s.analyse (s.pathOf file) source with
      | error problem =>
        have nothing : s.source? w file = none := by simp [source?, excluded, classesOf, read, analysed]
        rw [nothing]
        exact ⟨has.settings.trans ⟨rfl, rfl, rfl, rfl, rfl⟩, by simpa using has.registry, has.missing,
          by simpa using has.discovered⟩
      | ok a =>
        have something : s.source? w file = some (s.pathOf file, a.classes.map (·.descriptor)) := by
          simp [source?, excluded, classesOf, read, analysed]
        rw [something, Option.toList_some]
        refine ⟨has.settings.trans ⟨rfl, rfl, rfl, rfl, rfl⟩, ?_, ?_, ?_⟩
        next =>
          rw [Registry.readAll_append, ← has.registry]
          rfl
        next =>
          intro name
          change (forgetMissing t.session.missing _)[name]? = none
          rw [get_forgetMissing]
          split
          next => rfl
          next => exact has.missing name
        next => simp [has.discovered]

theorem Tally.Has.adds {s : Session} {t : Tally} {sources : Sources} (has : t.Has s sources) (w : Workspace)
    (files : List String) : (files.foldl (Tally.add w) t).Has s (sources ++ files.filterMap (s.source? w)) := by
  induction files generalizing t sources with
  | nil => simpa using has
  | cons file rest ih =>
    have more := ih (has.add w file)
    rw [List.append_assoc] at more
    cases found : s.source? w file with
    | none => simpa [found] using more
    | some source => simpa [found] using more

structure Settled (w : Workspace) (paths : List String) (s s' : Session) : Prop where
  settings : SameSettings s s'
  registry : s.registry.Alike s'.registry
  sound : s'.registry.Sound
  missing : ∀ name, s'.missing[name]? =
    if ∃ path ∈ paths, name ∈ s.registry.namesIn path then s.lacks w name else s.missing[name]?

theorem settled_settle {s : Session} (sound : s.registry.Sound) (w : Workspace) (path : String) :
    Settled w [path] s (settle w s path) where
  settings := ⟨rfl, rfl, rfl, rfl, rfl⟩
  registry := Registry.setAllImports_alike _ _
  sound := sound.setAllImports _
  missing := by
    intro name
    have report : (settle w s path).missing[name]? =
        if name ∈ s.registry.namesIn path then s.lacks w name else s.missing[name]? :=
      missing_resolveImports sound w path name
    simpa using report

theorem settled_settles {s : Session} (sound : s.registry.Sound) (w : Workspace) (paths : List String) :
    Settled w paths s (paths.foldl (settle w) s) := by
  induction paths generalizing s with
  | nil => exact ⟨.refl s, .refl _, sound, by simp⟩
  | cons path rest ih =>
    have first := settled_settle sound w path
    have later := ih first.sound
    refine ⟨first.settings.trans later.settings, first.registry.trans later.registry, later.sound, ?_⟩
    intro name
    have same := lacks_eq first.settings first.registry.outline first.registry.alternates w w name
    rw [List.foldl_cons, later.missing, first.missing, same]
    simp only [first.registry.names]
    by_cases listed : ∃ other ∈ rest, name ∈ s.registry.namesIn other
    next => simp [listed]
    next => simp [listed]

structure Discovered (s : Session) (w : Workspace) (s' : Session) : Prop where
  settings : SameSettings s s'
  registry : (Registry.readAll (s.search w)).Alike s'.registry
  sound : s'.registry.Sound
  missing : ∀ name : String, s'.missing[name]? = s'.lacks w name

theorem discovered_discover (s : Session) (w : Workspace) : Discovered s w (s.discover w).2 := by
  have cleared : SameSettings s { s.cleared with generation := s.generation + 1 } := ⟨rfl, rfl, rfl, rfl, rfl⟩
  have start : Tally.Has s { session := { s.cleared with generation := s.generation + 1 } } [] :=
    ⟨cleared, rfl, by simp [Session.cleared], rfl⟩
  let t := (({ s.cleared with generation := s.generation + 1 } : Session).candidates w).foldl (Tally.add w)
    { session := { s.cleared with generation := s.generation + 1 } }
  have has : t.Has s (s.search w) := by
    have all := start.adds w (({ s.cleared with generation := s.generation + 1 } : Session).candidates w)
    rw [cleared.candidates, List.nil_append] at all
    exact all
  have sound : t.session.registry.Sound := has.registry ▸ Registry.sound_readAll (s.search w)
  have settled := settled_settles sound w t.discovered
  change Discovered s w (t.discovered.foldl (settle w) t.session)
  refine ⟨has.settings.trans settled.settings, has.registry ▸ settled.registry, settled.sound, ?_⟩
  intro name
  rw [settled.missing, lacks_eq settled.settings settled.registry.outline settled.registry.alternates w w name]
  split
  next => rfl
  next unlisted =>
    -- a class that belongs to none of the files that were found is not known at all
    have unknown : t.session.registry.get? name = none := by
      cases known : t.session.registry.get? name with
      | none => rfl
      | some d =>
        have listed := sound.coherent.owned known
        rw [has.registry] at known
        have read := Registry.sourceFile_readAll (search_own s w) known
        exact absurd ⟨d.sourceFile, has.discovered ▸ read, listed⟩ unlisted
    rw [has.missing, lacks, unknown]
    rfl

end Session

end ClassLinker
