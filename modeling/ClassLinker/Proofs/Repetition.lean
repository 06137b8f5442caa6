import ClassLinker.Proofs.Answers
import ClassLinker.Proofs.DeclaredNames
import ClassLinker.Proofs.Incremental

set_option autoImplicit false

namespace ClassLinker

namespace Registry

def Built (r : Registry) : Prop := ∃ operations, r = after operations

theorem built_empty : Built empty := ⟨[], rfl⟩

section
variable {r : Registry} (built : r.Built)
include built

theorem Built.apply (operation : Operation) : (r.apply operation).Built := by
  obtain ⟨operations, rfl⟩ := built
  exact ⟨operations ++ [operation], (after_append operations operation).symm⟩

theorem Built.sound : r.Sound := by
  obtain ⟨operations, rfl⟩ := built
  exact sound_after operations

theorem Built.filled (file : String) : r.byFile[file]? ≠ some [] := by
  obtain ⟨operations, rfl⟩ := built
  exact (holds_after operations).filled file

theorem Built.replace (path : String) (classes : List Descriptor) : (r.replace path classes).Built := by
  have registered {r : Registry} (built : r.Built) : (classes.foldl (fun r d => (r.register d).2) r).Built := by
    induction classes generalizing r with
    | nil => exact built
    | cons d rest ih => exact ih (built.apply (.register d))
  exact registered (built.apply (.removeFile path))

theorem Built.setAllImports (byClass : List (String × List String)) : (r.setAllImports byClass).Built := by
  unfold Registry.setAllImports
  induction byClass generalizing r with
  | nil => exact built
  | cons entry rest ih => exact ih (built.apply (.setImports entry.1 entry.2))

-- files without classes have no list, so that the names tell the table
theorem Built.byFile_eq {r' : Registry} (built' : r'.Built) (names : ∀ file, r'.namesIn file = r.namesIn file) :
    r'.byFile = r.byFile := by
  apply Table.ext_get
  intro file
  have same := names file
  have some := built.filled file
  have some' := built'.filled file
  unfold namesIn at same
  cases listed : r.byFile[file]? <;> cases listed' : r'.byFile[file]? <;> simp_all

end

theorem eq_of_tables {r r' : Registry} (classes : r'.classes = r.classes) (alternates : r'.alternates = r.alternates)
    (aliases : r'.aliases = r.aliases) (byFile : r'.byFile = r.byFile) : r' = r := by
  cases r
  cases r'
  simp_all

theorem index_setAllImports (r : Registry) (kind : NameKind) (byClass : List (String × List String)) :
    (r.setAllImports byClass).index kind = r.index kind := by
  unfold setAllImports
  induction byClass generalizing r with
  | nil => rfl
  | cons entry rest ih => rw [List.foldl_cons, ih, index_setImports]

theorem Built.replace_again {r : Registry} (built : r.Built) {path : String} {classes : List Descriptor}
    (own : ∀ d ∈ classes, d.sourceFile = path) {byClass : List (String × List String)}
    (names : ∀ entry ∈ byClass, entry.1 ∈ (r.replace path classes).namesIn path) :
    ((r.replace path classes).setAllImports byClass).replace path classes = r.replace path classes := by
  have sound := built.sound
  have listed := (setAllImports_alike byClass (r.replace path classes)).names
  have again := (built.replace path classes).setAllImports byClass
  have classes_eq (name : String) : (((r.replace path classes).setAllImports byClass).replace path classes).get? name =
      (r.replace path classes).get? name := by
    rw [again.sound.get_replace, sound.get_replace]
    cases new : lastDefined classes name with
    | some d => rfl
    | none =>
      -- the imports of a class that the file does not define were not touched
      have untouched : byClass.reverse.lookup name = none := by
        rw [List.lookup_eq_none_iff]
        intro entry member
        have defined := sound.mem_names_of_replace (names entry (List.mem_reverse.mp member))
        rw [← lastDefined_isSome] at defined
        rw [bne_iff_ne]
        rintro rfl
        rw [new] at defined
        cases defined
      rw [get_setAllImports, untouched, sound.get_replace, new]
      simp [Option.filter_filter]
  have index_eq (kind : NameKind) :
      (((r.replace path classes).setAllImports byClass).replace path classes).index kind =
        (r.replace path classes).index kind := by
    apply Table.ext_get
    intro key
    rw [← sound.index_replace_again kind key, again.sound.index_replace, (sound.replace path classes).index_replace,
      index_setAllImports, listed]
  have names_eq (file : String) :
      (((r.replace path classes).setAllImports byClass).replace path classes).namesIn file =
        (r.replace path classes).namesIn file := by
    rw [← sound.namesIn_replace_again own file, again.sound.namesIn_replace, (sound.replace path classes).namesIn_replace,
      listed]
  exact eq_of_tables (Table.ext_get classes_eq) (index_eq .alternate) (index_eq .short)
    ((built.replace path classes).byFile_eq (again.replace path classes) names_eq)

end Registry

namespace Session

theorem Move.built {w : Workspace} {s s' : Session} (move : Move w s s') (built : s.registry.Built) :
    s'.registry.Built := by
  cases move with
  | reset => exact Registry.built_empty
  | refuse _ _ => exact built
  | adopt _ _ => exact built.replace _ _
  | resolve _ => exact built.setAllImports _
  | serve _ _ => exact built.setAllImports _
  | mark _ _ => exact built
  | forget => exact built.apply (.removeFile _)

theorem run_built {root : String} {config : Config} {start : Session} (created : create root config = .ok start)
    (calls : List Call) : (start.run calls).registry.Built := by
  have empty : start.registry.Built := by
    rw [(create_eq created).2.1]
    exact Registry.built_empty
  exact run_induction (fun _ _ _ => Move.built) empty calls

section
variable {s : Session} (built : s.registry.Built) (w : Workspace) {path source : String} {a : Analysis}
  (analysed : s.analyse path source = .ok a)
include built

theorem names_resolveImports (entry : String × List String) (member : entry ∈ (s.resolveImports w path).1.byClass) :
    entry.1 ∈ s.registry.namesIn path := by
  have names := (s.resolveImports_resolves w path).names
  rw [built.sound.coherent.map_name_classesIn] at names
  exact names ▸ List.mem_map_of_mem member

include analysed

theorem resolveImports_again :
    let stopped := ((s.adopt path source a []).resolveImports w path).2.setState path .importsResolved
    (stopped.adopt path source a []).resolveImports w path = (s.adopt path source a []).resolveImports w path := by
  intro stopped
  let adopted := s.adopt path source a []
  have known : adopted.registry.Built := built.replace path _
  have names : ∀ file, stopped.registry.namesIn file = adopted.registry.namesIn file :=
    (Registry.setAllImports_alike _ _).names
  have registry : (stopped.adopt path source a []).registry = adopted.registry :=
    built.replace_again (fun d member => (analyse_classes analysed d member).1) (names_resolveImports known w)
  have cache : (stopped.adopt path source a []).cache = adopted.cache := by
    apply Table.ext_get
    intro other
    simp only [adopted, stopped, adopt, replaceClasses, setState, resolveImports_cache, Cache.get_put, Cache.get_update]
    split <;> rfl
  have claims : stopped.claims.release path = adopted.claims.release path :=
    (adopted.resolveImports_resolves w path).granted.release
  have report (name : String) : (stopped.adopt path source a []).missing[name]? =
      if name ∈ adopted.registry.namesIn path then none else stopped.missing[name]? := by
    have removed := missing_removed (s := stopped) (known.setAllImports _).sound path name
    rw [names] at removed
    exact removed
  have same : stopped.adopt path source a [] =
      { adopted with claims := stopped.claims, missing := (stopped.adopt path source a []).missing } := by
    rw [← registry, ← cache]
    rfl
  -- the walk starts from the same claims, so that it finds the same and claims the same
  have walked : (stopped.adopt path source a []).resolveImports w path =
      ((adopted.resolveImports w path).1,
        { (adopted.resolveImports w path).2 with
          missing := ((stopped.adopt path source a []).resolveImports w path).2.missing }) := by
    rw [same]
    unfold resolveImports
    simp only [claims]
    rfl
  have missing : ((stopped.adopt path source a []).resolveImports w path).2.missing =
      (adopted.resolveImports w path).2.missing := by
    apply Table.ext_get
    intro name
    have before : stopped.missing[name]? = (adopted.resolveImports w path).2.missing[name]? := rfl
    rw [resolveImports_missing, registry, report, before, walked, resolveImports_missing,
      known.sound.coherent.map_name_classesIn]
    by_cases own : name ∈ adopted.registry.namesIn path
    next => simp [own]
    next => simp [own, ← Option.or_assoc]
  rw [walked, missing]

end

theorem lookup_refused (cache : Cache) (path source : String) (problem : Problem) (classes : List String) :
    (cache.put (failedRecord path source problem classes)).lookup path (Digest.fingerprint source) =
      .failed problem := by
  rw [Cache.lookup_eq_failed, Cache.get_put]
  exact ⟨_, if_pos rfl, rfl, rfl, rfl⟩

theorem get_resolved (s : Session) (w : Workspace) (path source : String) (a : Analysis) :
    ∃ r, ((s.adopt path source a []).resolveImports w path).2.cache[path]? = some r ∧
      r.fingerprint = Digest.fingerprint source := by
  rw [resolveImports_cache, adopt, Cache.get_put, if_pos rfl]
  exact ⟨_, rfl, rfl⟩

theorem lookup_stopped (s : Session) (w : Workspace) (path source : String) (a : Analysis) :
    (((s.adopt path source a []).resolveImports w path).2.setState path .importsResolved).cache.lookup path
      (Digest.fingerprint source) = .miss := by
  obtain ⟨r, found, print⟩ := get_resolved s w path source a
  unfold Cache.lookup setState
  rw [Cache.get_update, if_pos rfl, found]
  simp [print]

theorem lookup_served (s : Session) (w : Workspace) (path source : String) (a : Analysis) :
    ((s.adopt path source a []).served w path source a).cache.lookup path (Digest.fingerprint source) =
      .hit (s.render path source a ((s.adopt path source a []).resolveImports w path).1) := by
  obtain ⟨r, found, print⟩ := get_resolved s w path source a
  unfold served
  rw [Cache.lookup_eq_hit, Cache.get_update, if_pos rfl, found]
  exact ⟨_, rfl, print, rfl, rfl⟩

/-- Whatever was called before, a transformation right after one of the same source, under an id with the same path
and in the same workspace, gives the same and leaves the whole session as it is. -/
theorem repeated_transform_changes_nothing {root : String} {config : Config} {start : Session}
    (created : create root config = .ok start) (calls : List Call) (w : Workspace) {id other : String} (source : String)
    (first : (start.run calls).Transforms id) (second : (start.run calls).Transforms other)
    (same : (start.run calls).pathOf ((start.run calls).fileOf other) =
      (start.run calls).pathOf ((start.run calls).fileOf id)) :
    let s := start.run calls
    (s.transform w id source).2.transform w other source = s.transform w id source := by
  have built := run_built created calls
  generalize start.run calls = s at built first second same ⊢
  change (s.transform w id source).2.transform w other source = s.transform w id source
  have settings : SameSettings s (s.transform w id source).2 := run_sameSettings s [.transform w id source]
  have still : (s.transform w id source).2.Transforms other :=
    ⟨second.1, by rw [settings.fileOf, settings.inScope, second.2]⟩
  rw [transform_eq still, settings.fileOf, settings.pathOf, same, transform_eq first]
  generalize s.pathOf (s.fileOf id) = path
  cases looked : s.cache.lookup path (Digest.fingerprint source) with
  | hit output => simp only [looked]
  | failed problem => simp only [looked]
  | miss =>
    simp only
    rw [transformNew_eq s]
    cases analysed : s.analyse path source with
    | error problem =>
      simp only [lookup_refused]
      rfl
    | ok a =>
      simp only
      cases checked : s.checkUnmapped ((s.adopt path source a []).resolveImports w path).1.missing.count with
      | ok _ =>
        simp only [lookup_served]
        rfl
      | error problem =>
        -- the record holds no outcome, so that all steps are taken again
        have again := resolveImports_again built w analysed
        have kept : SameSettings s
            (((s.adopt path source a []).resolveImports w path).2.setState path .importsResolved) :=
          ⟨rfl, rfl, rfl, rfl, rfl⟩
        simp only [lookup_stopped]
        rw [transformNew_eq, kept.analyse, analysed]
        simp only [again, kept.checkUnmapped, checked]

set_option maxRecDepth 100000 in
theorem stopped_transform_of_moved_class_repeated :
    let config := { Config.default.withMapping "N" (.path "/src") with unmapped := .fatal, dedup := .global }
    let w : Workspace := ⟨[("src", .directory [
      ("A.js", .file (.text "Ext.define('N.X',\x7balternateClassName:'N.Y',alias:'x'\x7d)"))])]⟩
    let moved := "Ext.define('N.Z',\x7balternateClassName:'N.Y'\x7d);Ext.define('N.X',\x7buses:['O.P','N.Q']\x7d)"
    ∃ start, create "/r" config = .ok start ∧
      let s := start.run [.discover w]
      s.Transforms "/r/src/B.js" ∧ s.Transforms "/r/src/B.js?v=1" ∧
      s.pathOf (s.fileOf "/r/src/B.js?v=1") = s.pathOf (s.fileOf "/r/src/B.js") ∧
      let once := s.transform w "/r/src/B.js" moved
      once.1 = .error (.unmappedNamespaces 1) ∧
      s.registry.alternates["N.Y"]? = some "N.X" ∧ once.2.registry.alternates["N.Y"]? = some "N.Z" ∧
      once.2.transform w "/r/src/B.js?v=1" moved = once := by
  -- A class and an alternate name move to another file in a call that the policy stops, and the call is made again
  -- with a query in the id.
  intro config w moved
  have runs : ∃ start, create "/r" config = .ok start ∧
      let s := start.run [.discover w]
      ((WebPath.isAlwaysSkipped "/r/src/B.js" = false ∧ s.inScope (s.fileOf "/r/src/B.js") = true) ∧
        (WebPath.isAlwaysSkipped "/r/src/B.js?v=1" = false ∧ s.inScope (s.fileOf "/r/src/B.js?v=1") = true) ∧
        s.pathOf (s.fileOf "/r/src/B.js?v=1") = s.pathOf (s.fileOf "/r/src/B.js")) ∧
      (s.transform w "/r/src/B.js" moved).1 = .error (.unmappedNamespaces 1) ∧
      s.registry.alternates["N.Y"]? = some "N.X" ∧
      (s.transform w "/r/src/B.js" moved).2.registry.alternates["N.Y"]? = some "N.Z" :=
    ⟨_, rfl, by decide +kernel⟩
  obtain ⟨start, created, ⟨first, second, same⟩, stopped, before, after⟩ := runs
  exact ⟨start, created, first, second, same, stopped, before, after,
    repeated_transform_changes_nothing created [.discover w] w moved first second same⟩

end Session

end ClassLinker
