import Mathlib.Data.List.Pairwise
import ClassLinker.Proofs.Operations

set_option autoImplicit false

namespace ClassLinker

theorem ImportEntry.script_specifier_injective {ext p q : String}
    (same : (ImportEntry.script p).specifier ext = (ImportEntry.script q).specifier ext) : p = q := by
  simpa [specifier, String.append_assoc] using same

namespace Session

structure Linked (s : Session) : Prop where
  policy : s.claims.policy = s.config.dedup
  keyed : ∀ {path : String} {r : FileRecord}, s.cache[path]? = some r → r.path = path
  single : ∀ {name : String} {d : Descriptor}, s.registry.get? name = some d →
    d.imports.Nodup ∧ d.sourceFile ∉ d.imports
  apart : ∀ {name other : String} {d e : Descriptor}, s.registry.get? name = some d →
    s.registry.get? other = some e → d.sourceFile = e.sourceFile → name ≠ other → d.imports.Disjoint e.imports
  claimed : s.config.dedup = .global → ∀ {name : String} {d : Descriptor}, s.registry.get? name = some d →
    ∀ path ∈ d.imports, s.claims.owner? path = some d.sourceFile
  served : s.config.dedup = .global → s.config.autoImportAssets = false →
    ∀ {file : String} {r : FileRecord} {o : TransformOutput}, s.cache[file]? = some r → r.state = .cached →
      r.output = some o → ∀ specifier ∈ o.imports, ∃ path,
        specifier = (ImportEntry.script path).specifier s.scriptExtension ∧ s.claims.owner? path = some file

theorem Linked.of_cache {s : Session} (linked : s.Linked) (cache : Cache)
    (keyed : ∀ {path : String} {r : FileRecord}, cache[path]? = some r → r.path = path)
    (stored : ∀ {path : String} {r : FileRecord}, cache[path]? = some r → r.state = .cached →
      s.cache[path]? = some r) : ({ s with cache } : Session).Linked where
  policy := linked.policy
  keyed := keyed
  single := linked.single
  apart := linked.apart
  claimed := linked.claimed
  served := by
    intro once plain file r o found cached output
    exact linked.served once plain (stored found cached) cached output

theorem Linked.reset (s : Session) (generation : Nat) : ({ s.cleared with generation } : Session).Linked where
  policy := rfl
  keyed := by simp [cleared]
  single := by simp [cleared, Registry.get?, Registry.empty]
  apart := by simp [cleared, Registry.get?, Registry.empty]
  claimed := by simp [cleared, Registry.get?, Registry.empty]
  served := by simp [cleared]

theorem Linked.put {s : Session} (linked : s.Linked) {r : FileRecord} (unserved : r.state ≠ .cached) :
    ({ s with cache := s.cache.put r } : Session).Linked := by
  apply linked.of_cache
  next =>
    intro path other found
    rw [Cache.get_put] at found
    split at found
    next same =>
      cases found
      exact same
    next => exact linked.keyed found
  next =>
    intro path other found cached
    rw [Cache.get_put] at found
    split at found
    next =>
      cases found
      exact absurd cached unserved
    next => exact found

theorem Linked.mark {s : Session} (linked : s.Linked) {f : String → FileRecord → FileRecord}
    (marks : ∀ path r, FileRecord.Marks r (f path r)) : ({ s with cache := s.cache.map f } : Session).Linked := by
  apply linked.of_cache
  next =>
    intro path r found
    rw [Table.get_map, Option.map_eq_some_iff] at found
    obtain ⟨old, present, rfl⟩ := found
    rw [(marks path old).path]
    exact linked.keyed present
  next =>
    intro path r found cached
    rw [Table.get_map, Option.map_eq_some_iff] at found
    obtain ⟨old, present, rfl⟩ := found
    rw [(marks path old).stored cached]
    exact present

theorem Linked.replaceClasses {s : Session} (linked : s.Linked) {path : String} {classes : List Descriptor}
    (split : ∀ {name d}, (s.replaceClasses path classes).registry.get? name = some d →
      (d.sourceFile = path ∧ d.imports = []) ∨ (d.sourceFile ≠ path ∧ s.registry.get? name = some d)) :
    (s.replaceClasses path classes).Linked where
  policy := linked.policy
  keyed := linked.keyed
  single := by
    intro name d found
    rcases split found with ⟨_, none⟩ | ⟨_, old⟩
    next => simp [none]
    next => exact linked.single old
  apart := by
    intro name other d e found more same differs
    rcases split found with ⟨_, none⟩ | ⟨_, old⟩
    next => simp [none]
    next =>
      rcases split more with ⟨_, none⟩ | ⟨_, older⟩
      next => simp [none]
      next => exact linked.apart old older same differs
  claimed := by
    intro once name d found
    rcases split found with ⟨_, none⟩ | ⟨_, old⟩
    next => simp [none]
    next => exact linked.claimed once old
  served := linked.served

theorem Linked.adopt {s : Session} (linked : s.Linked) (sound : s.registry.Sound) {path source : String} {a : Analysis}
    (analysed : s.analyse path source = .ok a) (diagnostics : List Diagnostic) :
    (s.adopt path source a diagnostics).Linked := by
  have replaced : (s.replaceClasses path (a.classes.map (·.descriptor))).Linked :=
    linked.replaceClasses fun found => adopt_classes diagnostics sound analysed found
  exact replaced.put (by simp)

theorem owner_kept {s : Session} (w : Workspace) {path file : String} {p : String}
    (once : s.claims.policy = .global) (owned : s.claims.owner? p = some file) (differs : file ≠ path) :
    (s.resolveImports w path).2.claims.owner? p = some file := by
  have granted := (s.resolveImports_resolves w path).granted
  have released : (s.claims.release path).owner? p = some file := by
    rw [Claims.owner_release, owned, Option.filter_some]
    simp [differs]
  rw [granted.owner once]
  split
  next member => exact absurd (granted.free once p member file released) differs
  next => exact released

theorem Linked.resolve {s : Session} (linked : s.Linked) (sound : s.registry.Sound) (w : Workspace) {path : String}
    (unserved : s.Unserved path) : (s.resolveImports w path).2.Linked := by
  have resolves := s.resolveImports_resolves w path
  have lists := List.nodup_flatMap.mp resolves.distinct
  have inside {entry : String × List String} (member : entry ∈ (s.resolveImports w path).1.byClass) :
      ∀ p ∈ entry.2, p ∈ (s.resolveImports w path).1.scripts :=
    fun p own => List.mem_flatMap.mpr ⟨entry, member, own⟩
  refine ⟨?_, linked.keyed, ?_, ?_, ?_, ?_⟩
  next => exact resolves.granted.policy.trans linked.policy
  next =>
    intro name d found
    rcases resolveImports_classes sound w path found with ⟨source, member⟩ | ⟨_, old⟩
    next =>
      refine ⟨lists.1 _ member, ?_⟩
      intro own
      rw [source] at own
      exact resolves.foreign (inside member path own)
    next => exact linked.single old
  next =>
    intro name other d e found more same differs
    -- both classes are of the file, or neither is
    rcases resolveImports_classes sound w path found with ⟨source, member⟩ | ⟨foreign, old⟩
    next =>
      rcases resolveImports_classes sound w path more with ⟨_, member'⟩ | ⟨foreign, _⟩
      next =>
        have pair : (name, d.imports) ≠ (other, e.imports) := by
          intro equal
          exact differs (congrArg Prod.fst equal)
        have : Std.Symm (Function.onFun List.Disjoint (Prod.snd : String × List String → List String)) :=
          ⟨fun _ _ disjoint _ second first => disjoint first second⟩
        exact lists.2.forall member member' pair
      next => exact absurd (same.symm.trans source) foreign
    next =>
      rcases resolveImports_classes sound w path more with ⟨source, _⟩ | ⟨_, older⟩
      next => exact absurd (same.trans source) foreign
      next => exact linked.apart old older same differs
  next =>
    intro once name d found p own
    have global : s.claims.policy = .global := linked.policy.trans once
    rcases resolveImports_classes sound w path found with ⟨source, member⟩ | ⟨foreign, old⟩
    next => rw [resolves.granted.owner global, if_pos (inside member p own), source]
    next => exact owner_kept w global (linked.claimed once old p own) foreign
  next =>
    intro once plain file r o found cached output specifier imported
    have foreign : file ≠ path := by
      rintro rfl
      exact unserved r found cached
    obtain ⟨p, same, owned⟩ := linked.served once plain found cached output specifier imported
    exact ⟨p, same, owner_kept w (linked.policy.trans once) owned foreign⟩

theorem script_of_import {s : Session} {w : Workspace} {path : String} (plain : s.config.autoImportAssets = false)
    {specifier : String}
    (imported : specifier ∈ (s.resolveImports w path).1.entries.map (·.specifier s.scriptExtension)) :
    ∃ p ∈ (s.resolveImports w path).1.scripts,
      specifier = (ImportEntry.script p).specifier s.scriptExtension := by
  have alone : ∀ q, (s.surroundings w).entriesOf q = [.script q] := by
    intro q
    simp [Surroundings.entriesOf, Surroundings.assetsOf, surroundings, plain]
  rw [(s.resolveImports_resolves w path).entries, List.mem_map] at imported
  obtain ⟨entry, member, same⟩ := imported
  rw [List.mem_flatMap] at member
  obtain ⟨q, found, member⟩ := member
  rw [alone, List.mem_singleton] at member
  exact ⟨q, found, by rw [← same, member]⟩

theorem Linked.serve {s : Session} (linked : s.Linked) (sound : s.registry.Sound) (w : Workspace) {path : String}
    (unserved : s.Unserved path) (source : String) (a : Analysis) : (s.served w path source a).Linked := by
  have resolved := linked.resolve sound w unserved
  refine ⟨resolved.policy, ?_, resolved.single, resolved.apart, resolved.claimed, ?_⟩
  next =>
    intro other r found
    simp only [Session.served, Cache.get_update] at found
    split at found
    next =>
      rw [Option.map_eq_some_iff] at found
      obtain ⟨old, present, rfl⟩ := found
      have := resolved.keyed present
      exact this
    next => exact resolved.keyed found
  next =>
    intro once plain file r o found cached output specifier imported
    simp only [Session.served, Cache.get_update] at found
    split at found
    next same =>
      subst same
      rw [Option.map_eq_some_iff] at found
      obtain ⟨old, present, rfl⟩ := found
      cases output
      have granted := (s.resolveImports_resolves w path).granted
      have global : s.claims.policy = .global := linked.policy.trans once
      obtain ⟨p, member, same⟩ := script_of_import (s := s) plain imported
      refine ⟨p, same, ?_⟩
      change (s.resolveImports w path).2.claims.owner? p = some path
      rw [granted.owner global, if_pos member]
    next => exact resolved.served once plain found cached output specifier imported

theorem Linked.forget {s : Session} (linked : s.Linked) (sound : s.registry.Sound) (path : String) : (s.forget path).Linked := by
  have kept {name : String} {d : Descriptor} (found : (s.forget path).registry.get? name = some d) :
      s.registry.get? name = some d ∧ d.sourceFile ≠ path := by
    have here : (s.registry.removeFile path).2.get? name = some d := found
    rw [sound.coherent.get_removeFile, Option.filter_eq_some_iff] at here
    exact ⟨here.1, by simpa using here.2⟩
  have records {other : String} {r : FileRecord} (found : (s.forget path).cache[other]? = some r) :
      ∃ old, s.cache[other]? = some old ∧ r = Cache.dropOutput old := by
    simp only [Session.forget, Cache.get_invalidateAll, Table.get_erase] at found
    rw [Option.map_eq_some_iff] at found
    obtain ⟨old, present, rfl⟩ := found
    split at present
    next => cases present
    next => exact ⟨old, present, rfl⟩
  refine ⟨linked.policy, ?_, ?_, ?_, ?_, ?_⟩
  next =>
    intro other r found
    obtain ⟨old, present, rfl⟩ := records found
    rw [(Cache.marks_dropOutput old).path]
    exact linked.keyed present
  next =>
    intro name d found
    exact linked.single (kept found).1
  next =>
    intro name other d e found more same differs
    exact linked.apart (kept found).1 (kept more).1 same differs
  next =>
    intro once name d found p own
    obtain ⟨old, foreign⟩ := kept found
    change (s.claims.release path).owner? p = some d.sourceFile
    rw [Claims.owner_release, linked.claimed once old p own, Option.filter_some]
    simp [foreign]
  next =>
    intro once plain file r o found cached output
    obtain ⟨old, present, rfl⟩ := records found
    unfold Cache.dropOutput at cached
    split at cached
    next => cases cached
    next other => exact absurd cached other

theorem Linked.move {w : Workspace} {s s' : Session} (linked : s.Linked) (move : Move w s s')
    (sound : s.registry.Sound) : s'.Linked := by
  cases move with
  | reset => exact .reset s _
  | refuse classes refused => exact linked.put (by simp [failedRecord])
  | adopt diagnostics analysed => exact linked.adopt sound analysed diagnostics
  | resolve unserved => exact linked.resolve sound w unserved
  | serve analysed recorded =>
    apply linked.serve sound w
    intro r found cached
    rw [found] at recorded
    simp [cached] at recorded
  | mark f marks => exact linked.mark marks
  | forget => exact linked.forget sound _

theorem create_linked {root : String} {config : Config} {s : Session} (created : create root config = .ok s) :
    s.Linked := by
  obtain ⟨settings, registry, cache, claims, _⟩ := create_eq created
  refine ⟨?_, ?_, ?_, ?_, ?_, ?_⟩
  next => rw [claims, settings, Claims.ofPolicy]
  all_goals simp [registry, cache, Registry.get?, Registry.empty]

theorem run_linked {s : Session} (sound : s.registry.Sound) (linked : s.Linked) (calls : List Call) :
    (s.run calls).Linked := by
  have both : (s.run calls).registry.Sound ∧ (s.run calls).Linked :=
    run_induction (P := fun s => s.registry.Sound ∧ s.Linked)
      (fun _ _ _ move held => ⟨move.sound held.1, held.2.move move held.1⟩) ⟨sound, linked⟩ calls
  exact both.2

/-- Whatever a host calls in whatever order, no class imports a path twice or its own file, and no two classes of a
file import the same path. If every path is imported only once, the file of a class and the file of a stored outcome
have all that they import, so that no two classes and no two outcomes share an import. -/
theorem imports_told_apart_in_runs {root : String} {config : Config} {start : Session}
    (created : create root config = .ok start) (calls : List Call) :
    let s := start.run calls
    (∀ name d, s.registry.get? name = some d → d.imports.Nodup ∧ d.sourceFile ∉ d.imports) ∧
    (∀ name other d e, s.registry.get? name = some d → s.registry.get? other = some e →
      d.sourceFile = e.sourceFile → name ≠ other → d.imports.Disjoint e.imports) ∧
    (config.dedup = .global →
      (∀ name d, s.registry.get? name = some d → ∀ path ∈ d.imports, s.claims.owner? path = some d.sourceFile) ∧
      (∀ name other d e path, s.registry.get? name = some d → s.registry.get? other = some e →
        path ∈ d.imports → path ∈ e.imports → name = other) ∧
      (config.autoImportAssets = false →
        (∀ (file : String) (r : FileRecord) (o : TransformOutput), s.cache[file]? = some r → r.state = .cached → r.output = some o →
          ∀ specifier ∈ o.imports, ∃ path,
            specifier = (ImportEntry.script path).specifier s.scriptExtension ∧
              s.claims.owner? path = some r.path) ∧
        (∀ (file file' : String) (r r' : FileRecord) (o o' : TransformOutput),
          s.cache[file]? = some r → r.state = .cached → r.output = some o →
          s.cache[file']? = some r' → r'.state = .cached → r'.output = some o' →
          file ≠ file' → o.imports.Disjoint o'.imports))) := by
  intro s
  have linked : s.Linked := run_linked (create_sound created) (create_linked created) calls
  have config_eq : s.config = config := (run_sameSettings start calls).config.trans (create_eq created).1
  refine ⟨fun _ _ => linked.single, fun _ _ _ _ => linked.apart, ?_⟩
  intro once
  rw [← config_eq] at once
  refine ⟨fun _ _ => linked.claimed once, ?_, ?_⟩
  next =>
    intro name other d e path found more own shared
    -- a path has one owner, so the two classes are of one file
    have first := linked.claimed once found path own
    have second := linked.claimed once more path shared
    rw [first, Option.some.injEq] at second
    by_contra differs
    exact linked.apart found more second differs own shared
  next =>
    intro plain
    rw [← config_eq] at plain
    constructor
    next =>
      intro file r o found cached output
      rw [linked.keyed found]
      exact linked.served once plain found cached output
    next =>
      intro file file' r r' o o' found cached output found' cached' output' differs specifier own shared
      obtain ⟨path, same, owner⟩ := linked.served once plain found cached output specifier own
      obtain ⟨path', same', owner'⟩ := linked.served once plain found' cached' output' specifier shared
      have path_eq : path = path' := ImportEntry.script_specifier_injective (same.symm.trans same')
      rw [path_eq, owner', Option.some.injEq] at owner
      exact differs owner.symm

set_option maxRecDepth 100000 in
theorem imports_told_apart_for_two_files : ∃ start,
    create "/r" (Config.default.withMapping "N" (.path "/src")) = .ok start ∧
    let s := start.run [
      .transform .empty "/src/X.js" "Ext.define('N.X',\x7b\x7d)",
      .transform .empty "/src/A.js" "Ext.define('N.A',\x7buses:'N.X'\x7d)"]
    ∃ d r o, s.registry.get? "N.A" = some d ∧ d.imports = ["/src/X"] ∧
      s.cache["/src/A"]? = some r ∧ r.state = .cached ∧ r.output = some o ∧ o.imports = ["/src/X.js"] ∧
      s.claims.owner? "/src/X" = some d.sourceFile ∧
      (∃ path, "/src/X.js" = (ImportEntry.script path).specifier s.scriptExtension ∧
        s.claims.owner? path = some r.path) := by
  refine ⟨_, rfl, ?_⟩
  intro s
  have apart := @imports_told_apart_in_runs "/r" (Config.default.withMapping "N" (.path "/src")) _ rfl [
      .transform .empty "/src/X.js" "Ext.define('N.X',\x7b\x7d)",
      .transform .empty "/src/A.js" "Ext.define('N.A',\x7buses:'N.X'\x7d)"]
  have classes : (s.registry.get? "N.A").map (·.imports) = some ["/src/X"] := by decide +kernel
  have outcome : (s.cache["/src/A"]?).map (fun r => (r.state, r.output.map (·.imports))) =
      some (.cached, some ["/src/X.js"]) := by decide +kernel
  obtain ⟨d, found, imports⟩ := Option.map_eq_some_iff.mp classes
  obtain ⟨r, recorded, stored⟩ := Option.map_eq_some_iff.mp outcome
  rw [Prod.mk.injEq, Option.map_eq_some_iff] at stored
  obtain ⟨cached, o, output, specifiers⟩ := stored
  obtain ⟨classesOwn, _, outcomesOwn⟩ := apart.2.2 rfl
  refine ⟨d, r, o, found, imports, recorded, cached, output, specifiers, ?_, ?_⟩
  next => exact classesOwn "N.A" d found "/src/X" (by simp [imports])
  next => exact (outcomesOwn rfl).1 "/src/A" r o recorded cached output "/src/X.js" (by simp [specifiers])

end Session

end ClassLinker
