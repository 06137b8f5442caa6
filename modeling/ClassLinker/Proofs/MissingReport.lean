import ClassLinker.Proofs.CacheHits
import ClassLinker.Proofs.Incremental
import ClassLinker.Proofs.NamespaceMappings

set_option autoImplicit false

namespace ClassLinker

theorem nodup_extendUnique {list : List String} (unique : list.Nodup) (values : List String) :
    (extendUnique list values).Nodup := by
  induction values generalizing list with
  | nil => exact unique
  | cons value rest ih => exact ih (nodup_pushUnique unique value)

def Config.covers (c : Config) (name : String) : Bool :=
  c.mappings.keys.any fun stem => name = stem || (stem.toList ++ ['.']).isPrefixOf name.toList

namespace Resolver

theorem isSome_restAfter? (stem name : List Char) :
    (restAfter? stem name).isSome = (decide (name = stem) || (stem ++ ['.']).isPrefixOf name) := by
  rw [Bool.eq_iff_iff, Option.isSome_iff_exists, Bool.or_eq_true, decide_eq_true_eq, List.isPrefixOf_iff_prefix]
  simp only [restAfter?_eq_some, exists_or, exists_and_left, exists_eq, and_true]
  refine or_congr_right (exists_congr fun rest => ?_)
  rw [List.append_assoc, List.singleton_append, eq_comm]

theorem isSome_mappingFor? (c : Config) (name : String) : ((ofConfig c).mappingFor? name).isSome = c.covers name := by
  have listed := (arranges_ofConfig c).entries
  rw [Bool.eq_iff_iff, mappingFor?, List.isSome_findSome?, List.any_eq_true, Config.covers, List.any_eq_true]
  simp only [Option.isSome_map, isSome_restAfter?, String.toList_inj]
  constructor
  next =>
    rintro ⟨m, member, fits⟩
    refine ⟨m.stem, ?_, fits⟩
    rw [Std.ExtTreeMap.mem_keys, Std.ExtTreeMap.mem_iff_isSome_getElem?, (listed m).mp member, Option.isSome_some]
  next =>
    rintro ⟨stem, member, fits⟩
    rw [Std.ExtTreeMap.mem_keys, Std.ExtTreeMap.mem_iff_isSome_getElem?, Option.isSome_iff_exists] at member
    obtain ⟨target, found⟩ := member
    exact ⟨⟨stem, target⟩, (listed _).mpr found, fits⟩

end Resolver

namespace Session

/-- Whether a reference has a canonical name, and that is no class that is known and in no namespace that is mapped. -/
def isUnmapped (s : Session) (reference : String) : Bool :=
  match Resolver.canonicalName s.registry.alternates reference with
  | .error _ => false
  | .ok name => (s.registry.get? name).isNone && !s.config.covers name

def unmapped (s : Session) (d : Descriptor) : List String := (d.references.filter s.isUnmapped).eraseDups

def unmappedTotal (s : Session) : Nat :=
  s.registry.classes.toList.foldl (fun n entry => n + (s.unmapped entry.2).length) 0

section
variable {s : Session} (configured : s.resolver = .ofConfig s.config)
include configured

theorem leadsNowhere_eq (w : Workspace) (reference : String) :
    (s.surroundings w).leadsNowhere reference = s.isUnmapped reference := by
  simp only [Surroundings.leadsNowhere, Surroundings.lead, surroundings, isUnmapped]
  cases Resolver.canonicalName s.registry.alternates reference with
  | error problem => rfl
  | ok name =>
    have covers : s.config.covers name = (s.resolver.mappingFor? name).isSome := by
      rw [configured, Resolver.isSome_mappingFor?]
    simp only [covers, Surroundings.leadOfCanonical, Surroundings.isDisabled, Resolver.resolveCanonical]
    -- a mapping that is switched off counts as a mapping
    cases s.resolver.mappingFor? name with
    | none => cases s.registry.get? name <;> simp
    | some mapping =>
      obtain ⟨m, rest⟩ := mapping
      cases target : m.target <;> cases s.registry.get? name <;> simp [target]

theorem lacks_unmapped (w : Workspace) (d : Descriptor) :
    (s.surroundings w).lacks d = if s.unmapped d = [] then none else some (s.unmapped d) := by
  unfold Surroundings.lacks Surroundings.unresolved unmapped
  rw [extendUnique_eq_eraseDups, funext (leadsNowhere_eq configured w)]

theorem lacks_eq_some_iff {w : Workspace} {name : String} {references : List String} :
    s.lacks w name = some references ↔
      ∃ d, s.registry.get? name = some d ∧ references = s.unmapped d ∧ references ≠ [] := by
  unfold lacks
  simp only [Option.bind_eq_some_iff, lacks_unmapped configured w]
  refine exists_congr fun d => and_congr_right fun _ => ?_
  by_cases none : s.unmapped d = []
  next => simp_all
  next =>
    rw [if_neg none, Option.some_inj]
    constructor
    next =>
      rintro rfl
      exact ⟨rfl, none⟩
    next =>
      rintro ⟨rfl, _⟩
      rfl

theorem count_missing {w : Workspace} (reported : ∀ name : String, s.missing[name]? = s.lacks w name) :
    s.missing.count = s.unmappedTotal := by
  have table : s.missing = s.registry.classes.filterMap fun _ d => (s.surroundings w).lacks d := by
    apply Table.ext_get
    intro name
    rw [reported, Std.ExtTreeMap.getElem?_filterMap']
    rfl
  unfold MissingImports.count unmappedTotal
  rw [table, Std.ExtTreeMap.toList_filterMap, List.foldl_filterMap]
  congr 1
  funext n entry
  rw [lacks_unmapped configured w]
  by_cases none : s.unmapped entry.2 = [] <;> simp [none]

end

theorem discover_outcome (s : Session) (w : Workspace) : ∃ report : DiscoveryReport,
    report.missingImports = (s.discover w).2.missing ∧
      (s.discover w).1 = (s.checkUnmapped (s.discover w).2.missing.count).map fun _ => report := by
  rw [← (discovered_discover s w).settings.checkUnmapped]
  exact ⟨_, rfl, rfl⟩

theorem discover_error_iff (s : Session) (w : Workspace) (problem : Problem) :
    (s.discover w).1 = .error problem ↔ s.checkUnmapped (s.discover w).2.missing.count = .error problem := by
  obtain ⟨report, _, outcome⟩ := discover_outcome s w
  rw [outcome]
  cases s.checkUnmapped (s.discover w).2.missing.count <;> simp [Except.map]

theorem checkUnmapped_error_iff (s : Session) (count : Nat) (problem : Problem) :
    s.checkUnmapped count = .error problem ↔
      s.config.unmapped = .fatal ∧ 0 < count ∧ problem = .unmappedNamespaces count := by
  unfold checkUnmapped
  by_cases fatal : s.config.unmapped = .fatal <;> by_cases some : 0 < count <;> simp [fatal, some, eq_comm]

theorem missing_discover_eq {s s' : Session} {w w' : Workspace} (resolver : s'.resolver = s.resolver)
    (found : s'.search w' = s.search w) : (s'.discover w').2.missing = (s.discover w).2.missing := by
  have one := discovered_discover s w
  have two := discovered_discover s' w'
  have alike := one.registry.symm.trans (found ▸ two.registry)
  have mappings : (s'.discover w').2.resolver = (s.discover w).2.resolver := by
    rw [one.settings.resolver, two.settings.resolver, resolver]
  apply Table.ext_get
  intro name
  rw [one.missing, two.missing, lacks_of_resolver mappings alike.outline alike.alternates]

/-- A search reports of every class the references that have a canonical name which is no known class and in no mapped
namespace, in their order and each once. It fails exactly if there are any and they are to be fatal, and says how many.
The report is the same under every policy on repeated imports, and for any files that define the same classes,
whatever these files import themselves. -/
theorem search_reports_unmapped_references {root : String} {config : Config} {start : Session}
    (created : create root config = .ok start) (calls : List Call) (w : Workspace) :
    let s := start.run calls
    let found := (s.discover w).2
    (∀ name references, found.missing[name]? = some references ↔
      ∃ d, found.registry.get? name = some d ∧ references = found.unmapped d ∧ references ≠ []) ∧
    (∀ report, (s.discover w).1 = .ok report → report.missingImports = found.missing) ∧
    (∀ problem, (s.discover w).1 = .error problem ↔
      config.unmapped = .fatal ∧ 0 < found.unmappedTotal ∧ problem = .unmappedNamespaces found.unmappedTotal) ∧
    ∀ policy, ∃ other, create root { config with dedup := policy } = .ok other ∧
      ∀ calls' w', start.search w' = start.search w →
        ((other.run calls').discover w').2.missing = found.missing ∧
        ∀ problem, ((other.run calls').discover w').1 = .error problem ↔ (s.discover w).1 = .error problem := by
  intro s found
  obtain ⟨included, excluded, globs, globs', blank_eq⟩ := create_eq_blank.mp created
  have settings := run_sameSettings start calls
  have discovered := discovered_discover s w
  have config_eq : s.config = config := by rw [settings.config, blank_eq, blank]
  have resolver_eq : s.resolver = .ofConfig config := by rw [settings.resolver, blank_eq, blank]
  have configured : found.resolver = .ofConfig found.config := by
    rw [discovered.settings.resolver, discovered.settings.config, config_eq, resolver_eq]
  have fails (problem : Problem) := discover_error_iff s w problem
  refine ⟨?_, ?_, ?_, ?_⟩
  next =>
    intro name references
    rw [discovered.missing, lacks_eq_some_iff configured]
  next =>
    intro report succeeded
    obtain ⟨made, missing, outcome⟩ := discover_outcome s w
    rw [succeeded] at outcome
    cases checked : s.checkUnmapped (s.discover w).2.missing.count with
    | error problem => simp [checked, Except.map] at outcome
    | ok _ =>
      simp only [checked, Except.map, Except.ok.injEq] at outcome
      rw [outcome, missing]
  next =>
    intro problem
    rw [fails, checkUnmapped_error_iff, config_eq, count_missing configured discovered.missing]
  next =>
    intro policy
    let other := blank root { config with dedup := policy } included excluded
    refine ⟨other, create_eq_blank.mpr ⟨included, excluded, globs, globs', rfl⟩, ?_⟩
    intro calls' w' same
    have settings' := run_sameSettings other calls'
    have searched : (other.run calls').search w' = s.search w := by
      have kept : other.search w' = start.search w' := by
        rw [blank_eq]
        rfl
      rw [settings'.search, settings.search, kept, same]
    have resolver : (other.run calls').resolver = s.resolver := by
      rw [settings'.resolver, resolver_eq]
      rfl
    have missing := missing_discover_eq resolver searched
    refine ⟨missing, fun problem => ?_⟩
    rw [discover_error_iff, fails, missing, checkUnmapped_error_iff, checkUnmapped_error_iff, settings'.config,
      config_eq]
    rfl

set_option maxRecDepth 100000 in
theorem search_reports_two_unmapped_references :
    let config := { Config.default.withMapping "N" (.path "/src") with unmapped := .fatal }
    let text := "Ext.define('N.A',\x7bextend:'O.X',uses:['O.X','P.Y','N.B']\x7d)"
    let w (source : String) : Workspace := ⟨[("src", .directory [("A.js", .file (.text source))])]⟩
    ∃ start, create "/r" config = .ok start ∧ start.search (w ("import '/x.js';" ++ text)) = start.search (w text) ∧
      (start.discover (w text)).2.missing["N.A"]? = some ["O.X", "P.Y"] ∧
      (start.discover (w text)).1 = .error (.unmappedNamespaces 2) ∧
      ∃ other, create "/r" { config with dedup := .file } = .ok other ∧
        (other.discover (w ("import '/x.js';" ++ text))).1 = .error (.unmappedNamespaces 2) := by
  -- A class refers twice to one class and once to another one that are in no mapped namespace. Without the policy on
  -- repeated imports, and with an import of its own in the file, the search fails in the same way.
  intro config text w
  have runs : ∃ start, create "/r" config = .ok start ∧
      start.search (w ("import '/x.js';" ++ text)) = start.search (w text) ∧
      ((start.discover (w text)).2.registry.get? "N.A").map (start.discover (w text)).2.unmapped =
        some ["O.X", "P.Y"] ∧
      (start.discover (w text)).2.unmappedTotal = 2 :=
    ⟨_, rfl, by decide +kernel, by decide +kernel, by decide +kernel⟩
  obtain ⟨start, created, same, references, total⟩ := runs
  obtain ⟨reported, _, fails, anyway⟩ := search_reports_unmapped_references created [] (w text)
  obtain ⟨d, known, unmapped⟩ := Option.map_eq_some_iff.mp references
  have failed : (start.discover (w text)).1 = .error (.unmappedNamespaces 2) :=
    (fails _).mpr ⟨rfl, by simp [total], by simp [total]⟩
  obtain ⟨other, created', alike⟩ := anyway .file
  exact ⟨start, created, same, (reported _ _).mpr ⟨d, known, unmapped.symm, by simp⟩, failed, other, created',
    ((alike [] _ same).2 _).mpr failed⟩

structure Cites (references : List String) (d : Descriptor) : Prop where
  some : references ≠ []
  distinct : references.Nodup
  cited : ∀ reference ∈ references, reference ∈ d.references

theorem Cites.of_bare {references : List String} {d e : Descriptor} (cites : Cites references d)
    (same : e.bare = d.bare) : Cites references e := by
  have equal : e.references = d.references := by
    have : e.bare.references = d.bare.references := by rw [same]
    exact this
  exact ⟨cites.some, cites.distinct, equal ▸ cites.cited⟩

/-- Every entry of the report is about a class that is known, and lists references of it. -/
def Current (s : Session) : Prop :=
  ∀ (name : String) (references : List String), s.missing[name]? = some references →
    ∃ d, s.registry.get? name = some d ∧ Cites references d

theorem cites_of_lacks {s : Session} {w : Workspace} {name : String} {references : List String}
    (lacking : s.lacks w name = some references) : ∃ d, s.registry.get? name = some d ∧ Cites references d := by
  obtain ⟨d, known, lacking⟩ := Option.bind_eq_some_iff.mp lacking
  refine ⟨d, known, ?_⟩
  unfold Surroundings.lacks at lacking
  split at lacking
  next => cases lacking
  next some =>
    cases lacking
    refine ⟨some, nodup_extendUnique List.nodup_nil _, fun reference member => ?_⟩
    rw [Surroundings.unresolved, extendUnique_eq_eraseDups, List.mem_eraseDups, List.mem_filter] at member
    exact member.1

theorem Discovered.current {s s' : Session} {w : Workspace} (found : Discovered s w s') : s'.Current := by
  intro name references reported
  rw [found.missing] at reported
  exact cites_of_lacks reported

theorem Current.replaced {s s' : Session} {w : Workspace} {path : String} {classes : List Descriptor}
    (current : s.Current) (sound : s.registry.Sound) (replaced : Replaced w path classes s s')
    (own : ∀ d ∈ classes, d.sourceFile = path) : s'.Current := by
  intro name references reported
  rw [replaced.missing] at reported
  split at reported
  next => exact cites_of_lacks reported
  next unlisted =>
    split at reported
    next => cases reported
    next foreign =>
      obtain ⟨d, known, cites⟩ := current name references reported
      have elsewhere : d.sourceFile ≠ path := fun same => foreign (same ▸ sound.coherent.owned known)
      have after := replaced.get sound name
      rw [known, Option.filter_some, if_pos (by simpa using elsewhere)] at after
      cases new : Registry.lastDefined classes name with
      | none =>
        rw [new, Option.none_or, Option.map_some, Option.map_eq_some_iff] at after
        obtain ⟨e, known', same⟩ := after
        exact ⟨e, known', cites.of_bare same⟩
      | some e =>
        -- a class that the file has now would be listed
        rw [new, Option.some_or, Option.map_some, Option.map_eq_some_iff] at after
        obtain ⟨f, known', same⟩ := after
        have source : f.sourceFile = path :=
          (Descriptor.sourceFile_of_bare same).trans (own e (Registry.lastDefined_eq_some new).1)
        exact absurd (source ▸ replaced.sound.coherent.owned known') unlisted

/-- What a call can do to the classes and the report: nothing, to read or forget one file, or to search anew. -/
inductive Effect (s s' : Session) : Prop where
  | idle (registry : s'.registry = s.registry) (missing : s'.missing = s.missing)
  | replaced {w : Workspace} {path : String} {classes : List Descriptor} (own : ∀ d ∈ classes, d.sourceFile = path)
      (replaced : Replaced w path classes s s')
  | discovered {w : Workspace} (found : Discovered s w s')

theorem Effect.of_invalidated {s s' : Session} {path : String} (effect : Effect (s.invalidated path) s') :
    Effect s s' := by
  cases effect with
  | idle registry missing => exact .idle registry missing
  | replaced own replaced => exact .replaced own replaced.of_invalidated
  | discovered found =>
    have same := sameSettings_invalidated s path
    exact .discovered ⟨same.trans found.settings, same.search _ ▸ found.registry, found.sound, found.missing⟩

section
variable {s : Session} (sound : s.registry.Sound)
include sound

theorem transformNew_effect (w : Workspace) (path source : String) :
    Effect s (s.transformNew w path source).2 := by
  rw [transformNew_eq]
  cases analysed : s.analyse path source with
  | error problem => exact .idle rfl rfl
  | ok a =>
    have own : ∀ d ∈ a.classes.map (·.descriptor), d.sourceFile = path :=
      fun d member => (analyse_classes analysed d member).1
    have replaced := replaced_adopt sound w path source a []
    simp only
    -- the report is renewed before the policy stops the call
    split
    next => exact .replaced own (replaced.withCache _)
    next => exact .replaced own (replaced.withCache _)

theorem relearn_effect (w : Workspace) (file : String) : Effect s (s.relearn w file).2 := by
  cases found : s.classesOf w file with
  | some classes =>
    exact .replaced (fun d member => (classesOf_own found d member).1) (replaced_relearn sound found)
  | none =>
    have unchanged : (s.relearn w file).2.registry = s.registry ∧ (s.relearn w file).2.missing = s.missing := by
      unfold classesOf at found
      unfold relearn define
      cases read : w.read file with
      | error fault => exact ⟨rfl, rfl⟩
      | ok source =>
        simp only [read] at found
        cases analysed : s.analyse (s.pathOf file) source with
        | error problem => exact ⟨by simp only [analysed], by simp only [analysed]⟩
        | ok a =>
          simp only [analysed] at found
          cases found
    exact .idle unchanged.1 unchanged.2

theorem after_effect (call : Call) : Effect s (s.after call) := by
  cases call with
  | discover w => exact .discovered (discovered_discover s w)
  | transform w id source =>
    rw [after_transform]
    by_cases transforms : s.Transforms id
    next =>
      rw [transform_eq transforms]
      split
      next => exact .idle rfl rfl
      next => exact .idle rfl rfl
      next => exact transformNew_effect sound w _ source
    next =>
      rw [transform_outside transforms]
      exact .idle rfl rfl
  | fileChanged w id change =>
    change Effect s (s.fileChanged w id change).2
    cases change with
    | created =>
      unfold fileChanged
      simp only
      split
      next => exact .discovered (discovered_discover s w)
      next => exact .idle rfl rfl
    | deleted => exact .replaced (w := w) (by simp) (replaced_forget sound w _)
    | changed =>
      rw [fileChanged_changed]
      split
      next =>
        have known : (s.invalidated (s.pathOf (s.fileOf id))).registry.Sound := sound
        have learnt := relearn_effect known w (s.fileOf id)
        simp only
        exact learnt.of_invalidated
      next => exact .idle rfl rfl

theorem Current.after (current : s.Current) (call : Call) : (s.after call).Current := by
  cases after_effect sound call with
  | idle registry missing =>
    intro name references reported
    rw [missing] at reported
    rw [registry]
    exact current name references reported
  | replaced own replaced => exact current.replaced sound replaced own
  | discovered found => exact found.current

theorem Current.run (current : s.Current) (calls : List Call) : (s.run calls).Current := by
  induction calls using List.reverseRecOn with
  | nil => exact current
  | append_singleton calls call ih =>
    rw [run_append]
    exact ih.after (run_sound sound calls) call

end

theorem create_current {root : String} {config : Config} {s : Session} (created : create root config = .ok s) :
    s.Current := by
  intro name references reported
  rw [(create_eq created).2.2.2.2] at reported
  simp at reported

/-- Whatever calls were made and whether they succeeded, every entry of the report is about a class that is known now,
and lists references that this class has now. -/
theorem report_current_in_runs {root : String} {config : Config} {start : Session}
    (created : create root config = .ok start) (calls : List Call) {name : String} {references : List String}
    (reported : (start.run calls).missing[name]? = some references) :
    ∃ d, (start.run calls).registry.get? name = some d ∧ d.name = name ∧ references ≠ [] ∧ references.Nodup ∧
      ∀ reference ∈ references, reference ∈ d.references := by
  have current := (create_current created).run (create_sound created) calls
  have sound := run_sound (create_sound created) calls
  obtain ⟨d, known, cites⟩ := current name references reported
  exact ⟨d, known, sound.coherent.named known, cites.some, cites.distinct, cites.cited⟩

set_option maxRecDepth 100000 in
theorem report_current_of_moved_class :
    let config := { Config.default.withMapping "N" (.path "/src") with unmapped := .fatal }
    let w : Workspace := ⟨[("src", .directory [("A.js", .file (.text "Ext.define('N.X',\x7bextend:'O.P'\x7d)"))])]⟩
    let moved := "Ext.define('N.X',\x7bextend:'O.Q',uses:['O.R','O.Q']\x7d)"
    let calls := [.discover w, .transform w "/r/src/B.js" moved, .fileChanged w "/r/src/A.js" .deleted]
    ∃ start, create "/r" config = .ok start ∧
      (start.discover w).2.missing["N.X"]? = some ["O.P"] ∧
      (start.run calls).missing["N.X"]? = some ["O.Q", "O.R"] ∧
      ∃ d, (start.run calls).registry.get? "N.X" = some d ∧ d.name = "N.X" ∧
        ∀ reference ∈ ["O.Q", "O.R"], reference ∈ d.references := by
  -- A class moves to another file with other references, in a call that the policy stops, and the file it was in is
  -- deleted.
  intro config w moved calls
  have runs : ∃ start, create "/r" config = .ok start ∧
      (start.discover w).2.missing["N.X"]? = some ["O.P"] ∧
      (start.run calls).missing["N.X"]? = some ["O.Q", "O.R"] :=
    ⟨_, rfl, by decide +kernel, by decide +kernel⟩
  obtain ⟨start, created, before, reported⟩ := runs
  obtain ⟨d, known, named, _, _, cited⟩ := report_current_in_runs created calls reported
  exact ⟨start, created, before, reported, d, known, named, cited⟩

end Session

end ClassLinker
