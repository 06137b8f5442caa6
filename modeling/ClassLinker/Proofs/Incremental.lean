import Mathlib.Data.List.DropRight
import ClassLinker.Proofs.LastDefinition

set_option autoImplicit false

/-!
What a session knows when it is told of changes. Each report makes it search anew, read one file or forget one. So its
classes are those of the files in the order in which they were last read, and what it says of a class is as old as the
last reading of the file that defines it.
-/

namespace ClassLinker

structure Step where
  workspace : Workspace
  id : String
  change : FileChange

def Step.call (t : Step) : Call := .fileChanged t.workspace t.id t.change

def Step.last (first : Workspace) (steps : List Step) : Workspace := steps.foldl (fun _ t => t.workspace) first

theorem Step.last_append (first : Workspace) (steps : List Step) (t : Step) :
    last first (steps ++ [t]) = t.workspace := by
  simp [last]

namespace Session

def target (s : Session) (t : Step) : String := s.pathOf (s.fileOf t.id)

def rebuilds (s : Session) (t : Step) : Bool := decide (t.change = .created) && s.inScope (s.fileOf t.id)

/-- The file that a step makes a session read, with its classes. A file that was deleted has none. -/
def rereading? (s : Session) (t : Step) : Option (String × List Descriptor) :=
  match t.change with
  | .created => none
  | .changed =>
    if s.inScope (s.fileOf t.id) then (s.classesOf t.workspace (s.fileOf t.id)).map (s.target t, ·) else none
  | .deleted => some (s.target t, [])

def reads (s : Session) (t : Step) (path : String) : Bool := s.rebuilds t || (s.rereading? t).any (·.1 = path)

/-- The files as they were read since the last search, that search included. -/
def history (s : Session) (first : Workspace) (steps : List Step) : Sources :=
  steps.foldl (fun log t => if s.rebuilds t then s.search t.workspace else log ++ (s.rereading? t).toList)
    (s.search first)

theorem history_append (s : Session) (first : Workspace) (steps : List Step) (t : Step) :
    s.history first (steps ++ [t]) =
      if s.rebuilds t then s.search t.workspace else s.history first steps ++ (s.rereading? t).toList := by
  simp [history]

/-- The steps up to the last one that made a session read the file at a path. -/
def untilRead (s : Session) (path : String) (steps : List Step) : List Step := steps.rdropWhile (! s.reads · path)

theorem untilRead_append (s : Session) (path : String) (steps : List Step) (t : Step) :
    s.untilRead path (steps ++ [t]) = if s.reads t path then steps ++ [t] else s.untilRead path steps := by
  unfold untilRead
  cases read : s.reads t path with
  | true => exact List.rdropWhile_concat_neg _ _ _ (by simp [read])
  | false => exact List.rdropWhile_concat_pos _ _ _ (by simp [read])

def told (s : Session) (first : Workspace) (steps : List Step) : Session :=
  (s.discover first).2.run (steps.map Step.call)

theorem told_append (s : Session) (first : Workspace) (steps : List Step) (t : Step) :
    s.told first (steps ++ [t]) = (s.told first steps).after t.call := by
  rw [told, List.map_append, run_append]
  rfl

theorem rereading?_own {s : Session} {t : Step} {path : String} {classes : List Descriptor}
    (read : s.rereading? t = some (path, classes)) : ∀ d ∈ classes, d.sourceFile = path ∧ d.imports = [] := by
  unfold rereading? at read
  split at read
  next => cases read
  next =>
    split at read
    next =>
      obtain ⟨found, known, same⟩ := Option.map_eq_some_iff.mp read
      cases same
      exact classesOf_own known
    next => cases read
  next =>
    cases read
    simp

theorem history_own (s : Session) (first : Workspace) (steps : List Step) : Sources.Own (s.history first steps) := by
  induction steps using List.reverseRecOn with
  | nil => exact search_own s first
  | append_singleton steps t ih =>
    rw [history_append]
    split
    next => exact search_own s t.workspace
    next =>
      intro source member
      rcases List.mem_append.mp member with member | member
      next => exact ih source member
      next => exact rereading?_own (Option.mem_toList.mp member)

/-- The classes of a file stand in the place of those it had, and the report on them is up to date. -/
structure Replaced (w : Workspace) (path : String) (classes : List Descriptor) (s s' : Session) : Prop where
  settings : SameSettings s s'
  registry : (s.registry.replace path classes).Alike s'.registry
  sound : s'.registry.Sound
  missing : ∀ name : String, s'.missing[name]? =
    if name ∈ s'.registry.namesIn path then s'.lacks w name
    else if name ∈ s.registry.namesIn path then none else s.missing[name]?

theorem missing_removed {s : Session} (sound : s.registry.Sound) (path name : String) :
    (forgetMissing s.missing ((s.registry.removeFile path).1.map (·.name)))[name]? =
      if name ∈ s.registry.namesIn path then none else s.missing[name]? := by
  rw [get_forgetMissing, sound.coherent.fst_removeFile, sound.coherent.map_name_classesIn]

theorem replaced_forget {s : Session} (sound : s.registry.Sound) (w : Workspace) (path : String) :
    Replaced w path [] s (s.forget path) where
  settings := ⟨rfl, rfl, rfl, rfl, rfl⟩
  registry := .refl _
  sound := sound.removeFile path
  missing := by
    intro name
    have gone : (s.forget path).registry.namesIn path = [] := by
      have names := sound.coherent.namesIn_removeFile path path
      rw [if_pos rfl] at names
      exact names
    rw [gone]
    exact missing_removed sound path name

theorem Replaced.withCache {w : Workspace} {path : String} {classes : List Descriptor} {s s' : Session}
    (replaced : Replaced w path classes s s') (cache : Cache) : Replaced w path classes s { s' with cache } :=
  ⟨replaced.settings.trans ⟨rfl, rfl, rfl, rfl, rfl⟩, replaced.registry, replaced.sound, replaced.missing⟩

theorem replaced_adopt {s : Session} (sound : s.registry.Sound) (w : Workspace) (path source : String) (a : Analysis)
    (diagnostics : List Diagnostic) :
    Replaced w path (a.classes.map (·.descriptor)) s
      ((s.adopt path source a diagnostics).resolveImports w path).2 := by
  let adopted := s.adopt path source a diagnostics
  have sound' : adopted.registry.Sound := sound.replace _ _
  have alike : adopted.registry.Alike (adopted.resolveImports w path).2.registry :=
    Registry.setAllImports_alike _ _
  refine ⟨⟨rfl, rfl, rfl, rfl, rfl⟩, alike, sound'.setAllImports _, ?_⟩
  intro name
  have report : (adopted.resolveImports w path).2.missing[name]? =
      if name ∈ adopted.registry.namesIn path then adopted.lacks w name else adopted.missing[name]? :=
    missing_resolveImports sound' w _ name
  have before : adopted.missing[name]? =
      if name ∈ s.registry.namesIn path then none else s.missing[name]? := missing_removed sound _ name
  have settings : SameSettings adopted (adopted.resolveImports w path).2 := ⟨rfl, rfl, rfl, rfl, rfl⟩
  have lacking := lacks_eq settings alike.outline alike.alternates w w name
  change (adopted.resolveImports w path).2.missing[name]? =
    if name ∈ (adopted.resolveImports w path).2.registry.namesIn path then
      (adopted.resolveImports w path).2.lacks w name
    else if name ∈ s.registry.namesIn path then none else s.missing[name]?
  rw [report, before, alike.names, lacking]

theorem replaced_relearn {s : Session} (sound : s.registry.Sound) {w : Workspace} {file : String}
    {classes : List Descriptor} (found : s.classesOf w file = some classes) :
    Replaced w (s.pathOf file) classes s (s.relearn w file).2 := by
  obtain ⟨source, a, read, analysed, rfl⟩ := classesOf_eq_some found
  have replaced := replaced_adopt sound w (s.pathOf file) source a (classFindings a)
  have learnt : ∃ cache, (s.relearn w file).2 =
      { ((s.adopt (s.pathOf file) source a (classFindings a)).resolveImports w (s.pathOf file)).2 with cache } := by
    unfold relearn define
    simp only [read, analysed]
    exact ⟨_, rfl⟩
  obtain ⟨cache, learnt⟩ := learnt
  rw [learnt]
  exact replaced.withCache cache

theorem Replaced.of_invalidated {w : Workspace} {path other : String} {classes : List Descriptor} {s s' : Session}
    (replaced : Replaced w path classes (s.invalidated other) s') : Replaced w path classes s s' :=
  ⟨(sameSettings_invalidated s other).trans replaced.settings, replaced.registry, replaced.sound, replaced.missing⟩

theorem Replaced.get {w : Workspace} {path : String} {classes : List Descriptor} {s s' : Session}
    (replaced : Replaced w path classes s s') (sound : s.registry.Sound) (name : String) :
    (s'.registry.get? name).map Descriptor.bare =
      ((Registry.lastDefined classes name).or ((s.registry.get? name).filter (·.sourceFile ≠ path))).map
        Descriptor.bare := by
  rw [replaced.registry.get, sound.get_replace]

section
variable {w : Workspace} {path name : String} {classes : List Descriptor} {s s' : Session} {d : Descriptor}
  (replaced : Replaced w path classes s s') (sound : s.registry.Sound)
include replaced

theorem Replaced.missing_here (found : s'.registry.get? name = some d) (own : d.sourceFile = path) :
    s'.missing[name]? = s'.lacks w name := by
  rw [replaced.missing, if_pos (own ▸ replaced.sound.coherent.owned found)]

include sound

theorem Replaced.known (own : ∀ d ∈ classes, d.sourceFile = path) (found : s'.registry.get? name = some d)
    (other : d.sourceFile ≠ path) : ∃ e, s.registry.get? name = some e ∧ e.bare = d.bare := by
  have origin := replaced.get sound name
  rw [found, Option.map_some, eq_comm, Option.map_eq_some_iff] at origin
  obtain ⟨e, origin, bare⟩ := origin
  rw [Option.or_eq_some_iff] at origin
  rcases origin with new | ⟨_, old⟩
  next =>
    have source := Descriptor.sourceFile_of_bare bare
    exact absurd (source.symm.trans (own e (Registry.lastDefined_eq_some new).1)) other
  next => exact ⟨e, (Option.filter_eq_some_iff.mp old).1, bare⟩

theorem Replaced.missing_elsewhere (own : ∀ d ∈ classes, d.sourceFile = path)
    (found : s'.registry.get? name = some d) (other : d.sourceFile ≠ path) : s'.missing[name]? = s.missing[name]? := by
  obtain ⟨e, known, bare⟩ := replaced.known sound own found other
  have absent : name ∉ s'.registry.namesIn path := fun listed =>
    other (replaced.sound.coherent.file_unique listed found)
  have outside : name ∉ s.registry.namesIn path := fun listed =>
    other (Descriptor.sourceFile_of_bare bare ▸ sound.coherent.file_unique listed known)
  rw [replaced.missing, if_neg absent, if_neg outside]

theorem Replaced.missing_gone (unknown : s.registry.get? name = none → s.missing[name]? = none)
    (gone : s'.registry.get? name = none) : s'.missing[name]? = none := by
  have absent : name ∉ s'.registry.namesIn path := by
    intro listed
    obtain ⟨d, found, _⟩ := replaced.sound.coherent.listed listed
    rw [gone] at found
    cases found
  rw [replaced.missing, if_neg absent]
  split
  next => rfl
  next outside =>
    apply unknown
    have origin := replaced.get sound name
    rw [gone, Option.map_none, eq_comm, Option.map_eq_none_iff, Option.or_eq_none_iff] at origin
    cases known : s.registry.get? name with
    | none => rfl
    | some e =>
      have foreign : e.sourceFile ≠ path := fun same => outside (same ▸ sound.coherent.owned known)
      rw [known, Option.filter_some] at origin
      simp [foreign] at origin

end

inductive Follows (start : Session) (t : Step) (s s' : Session) : Prop where
  | rebuilt (rebuilds : start.rebuilds t = true) (discovered : s' = (s.discover t.workspace).2)
  | read {path : String} {classes : List Descriptor} (quiet : start.rebuilds t = false)
      (reading : start.rereading? t = some (path, classes)) (replaced : Replaced t.workspace path classes s s')
  | idle (quiet : start.rebuilds t = false) (nothing : start.rereading? t = none) (settings : SameSettings s s')
      (registry : s'.registry = s.registry) (missing : s'.missing = s.missing)

theorem idle_relearn {s : Session} {w : Workspace} {file : String} (none : s.classesOf w file = none) :
    ∃ cache, (s.relearn w file).2 = { s with cache } := by
  unfold classesOf at none
  unfold relearn define
  cases read : w.read file with
  | error fault => exact ⟨s.cache, rfl⟩
  | ok source =>
    rw [read] at none
    cases analysed : s.analyse (s.pathOf file) source with
    | error problem =>
      simp only [analysed]
      exact ⟨_, rfl⟩
    | ok a => simp [analysed] at none

theorem follows_changed {start s : Session} {t : Step} (same : SameSettings start s) (sound : s.registry.Sound)
    (kind : t.change = .changed) : Follows start t s (s.after t.call) := by
  have quiet : start.rebuilds t = false := by simp [rebuilds, kind]
  have settings : SameSettings start (s.invalidated (start.target t)) := same.trans (sameSettings_invalidated s _)
  have after_eq : s.after t.call =
      if start.inScope (start.fileOf t.id) then
        ((s.invalidated (start.target t)).relearn t.workspace (start.fileOf t.id)).2
      else s.invalidated (start.target t) := by
    change (s.fileChanged t.workspace t.id t.change).2 = _
    rw [kind, fileChanged_changed, same.fileOf, same.inScope, same.pathOf, ← target]
    split
    next => simp only
    next => simp only
  rw [after_eq]
  cases inside : start.inScope (start.fileOf t.id) with
  | false =>
    exact .idle quiet (by simp [rereading?, kind, inside]) (sameSettings_invalidated s _) rfl rfl
  | true =>
    rw [if_pos rfl]
    cases found : start.classesOf t.workspace (start.fileOf t.id) with
    | none =>
      rw [← settings.classesOf] at found
      obtain ⟨cache, kept⟩ := idle_relearn found
      rw [settings.classesOf] at found
      rw [kept]
      exact .idle quiet (by simp [rereading?, kind, found]) ⟨rfl, rfl, rfl, rfl, rfl⟩ rfl rfl
    | some classes =>
      have reading : start.rereading? t = some (start.target t, classes) := by simp [rereading?, kind, inside, found]
      rw [← settings.classesOf] at found
      have learnt := replaced_relearn (s := s.invalidated (start.target t)) sound found
      rw [settings.pathOf] at learnt
      exact .read quiet reading learnt.of_invalidated

theorem follows_step {start s : Session} (t : Step) (same : SameSettings start s) (sound : s.registry.Sound) :
    Follows start t s (s.after t.call) := by
  cases kind : t.change with
  | created =>
    have after_eq : s.after t.call = if start.inScope (start.fileOf t.id) then (s.discover t.workspace).2 else s := by
      change (s.fileChanged t.workspace t.id t.change).2 = _
      rw [kind, ← same.inScope, ← same.fileOf]
      unfold fileChanged
      simp only
      split <;> rfl
    rw [after_eq]
    cases inside : start.inScope (start.fileOf t.id) with
    | true => exact .rebuilt (by simp [rebuilds, kind, inside]) (if_pos rfl)
    | false => exact .idle (by simp [rebuilds, inside]) (by simp [rereading?, kind]) (.refl s) rfl rfl
  | changed => exact follows_changed same sound kind
  | deleted =>
    have after_eq : s.after t.call = s.forget (start.target t) := by
      change (s.fileChanged t.workspace t.id t.change).2 = _
      rw [kind, target, ← same.fileOf, ← same.pathOf]
      rfl
    rw [after_eq]
    exact .read (by simp [rebuilds, kind]) (by simp [rereading?, kind]) (replaced_forget sound t.workspace _)

section
variable (start : Session) (first : Workspace)

theorem told_settings (steps : List Step) : SameSettings start (start.told first steps) :=
  (discovered_discover start first).settings.trans (run_sameSettings _ _)

theorem told_sound (steps : List Step) : (start.told first steps).registry.Sound := by
  induction steps using List.reverseRecOn with
  | nil => exact (discovered_discover start first).sound
  | append_singleton steps t ih =>
    rw [told_append]
    cases follows_step t (told_settings start first steps) ih with
    | rebuilt _ discovered => exact discovered ▸ (discovered_discover _ _).sound
    | read _ _ replaced => exact replaced.sound
    | idle _ _ _ registry _ => exact registry ▸ ih

theorem told_registry (steps : List Step) :
    (Registry.readAll (start.history first steps)).Alike (start.told first steps).registry := by
  induction steps using List.reverseRecOn with
  | nil => exact (discovered_discover start first).registry
  | append_singleton steps t ih =>
    have sound := told_sound start first steps
    rw [told_append, history_append]
    cases follows_step t (told_settings start first steps) sound with
    | rebuilt rebuilds discovered =>
      rw [if_pos rebuilds, discovered, ← (told_settings start first steps).search]
      exact (discovered_discover _ _).registry
    | read quiet reading replaced =>
      rw [quiet, if_neg Bool.false_ne_true, reading, Option.toList_some, Registry.readAll_append]
      exact (ih.replace (Registry.sound_readAll _) sound _ _).trans replaced.registry
    | idle quiet nothing _ registry _ =>
      rw [quiet, if_neg Bool.false_ne_true, nothing, Option.toList_none, List.append_nil, registry]
      exact ih

theorem told_unknown (steps : List Step) (name : String)
    (unknown : (start.told first steps).registry.get? name = none) :
    (start.told first steps).missing[name]? = none := by
  induction steps using List.reverseRecOn with
  | nil =>
    change (start.discover first).2.registry.get? name = none at unknown
    change (start.discover first).2.missing[name]? = none
    rw [(discovered_discover start first).missing, lacks, unknown]
    rfl
  | append_singleton steps t ih =>
    have sound := told_sound start first steps
    rw [told_append] at unknown ⊢
    cases follows_step t (told_settings start first steps) sound with
    | rebuilt _ discovered =>
      rw [discovered] at unknown ⊢
      rw [(discovered_discover _ _).missing, lacks, unknown]
      rfl
    | read _ _ replaced => exact replaced.missing_gone sound ih unknown
    | idle _ _ _ registry missing =>
      rw [registry] at unknown
      rw [missing]
      exact ih unknown

def atReading (path : String) (steps : List Step) : Surroundings :=
  (start.told first (start.untilRead path steps)).surroundings (Step.last first (start.untilRead path steps))

theorem atReading_append (path : String) (steps : List Step) (t : Step) :
    start.atReading first path (steps ++ [t]) =
      if start.reads t path then (start.told first (steps ++ [t])).surroundings t.workspace
      else start.atReading first path steps := by
  unfold atReading
  rw [untilRead_append]
  split
  next => rw [Step.last_append]
  next => rfl

theorem told_missing (steps : List Step) {name : String} {d : Descriptor}
    (found : (start.told first steps).registry.get? name = some d) :
    (start.told first steps).missing[name]? = (start.atReading first d.sourceFile steps).lacks d := by
  induction steps using List.reverseRecOn generalizing d with
  | nil =>
    change (start.discover first).2.registry.get? name = some d at found
    change (start.discover first).2.missing[name]? = ((start.discover first).2.surroundings first).lacks d
    rw [(discovered_discover start first).missing, lacks, found, Option.bind_some]
  | append_singleton steps t ih =>
    have sound := told_sound start first steps
    have follows := follows_step t (told_settings start first steps) sound
    rw [← told_append] at follows
    rw [atReading_append]
    have renewed (report : (start.told first (steps ++ [t])).missing[name]? =
        (start.told first (steps ++ [t])).lacks t.workspace name) :
        (start.told first (steps ++ [t])).missing[name]? =
          ((start.told first (steps ++ [t])).surroundings t.workspace).lacks d := by
      rw [report, lacks, found, Option.bind_some]
    cases follows with
    | rebuilt rebuilds discovered =>
      have read : start.reads t d.sourceFile = true := by simp [reads, rebuilds]
      rw [if_pos read]
      apply renewed
      rw [discovered]
      exact (discovered_discover _ _).missing name
    | @read path classes quiet reading replaced =>
      by_cases own : d.sourceFile = path
      next =>
        have read : start.reads t d.sourceFile = true := by simp [reads, reading, own]
        rw [if_pos read]
        exact renewed (replaced.missing_here found own)
      next =>
        have unread : start.reads t d.sourceFile = false := by simp [reads, quiet, reading, Ne.symm own]
        have owns : ∀ d ∈ classes, d.sourceFile = path := fun d member => (rereading?_own reading d member).1
        obtain ⟨e, known, bare⟩ := replaced.known sound owns found own
        rw [unread, if_neg Bool.false_ne_true, replaced.missing_elsewhere sound owns found own, ih known,
          Descriptor.sourceFile_of_bare bare]
        exact Surroundings.lacks_eq rfl rfl rfl bare
    | idle quiet nothing _ registry missing =>
      have unread : start.reads t d.sourceFile = false := by simp [reads, quiet, nothing]
      rw [registry] at found
      rw [unread, if_neg Bool.false_ne_true, missing]
      exact ih found

end

end Session

end ClassLinker
