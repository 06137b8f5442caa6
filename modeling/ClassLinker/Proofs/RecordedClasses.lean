import ClassLinker.Proofs.CacheHits
import ClassLinker.Proofs.Ownership

set_option autoImplicit false

namespace ClassLinker

inductive Verdict where
  | learnt
  | refused
deriving DecidableEq

namespace Session

instance (s : Session) (id : String) : Decidable (s.Transforms id) := inferInstanceAs (Decidable (_ ∧ _))

def verdict (s : Session) (path source : String) : Verdict :=
  match s.analyse path source with
  | .ok _ => .learnt
  | .error _ => .refused

theorem verdict_of_ok {s : Session} {path source : String} {a : Analysis} (analysed : s.analyse path source = .ok a) :
    s.verdict path source = .learnt := by
  unfold verdict
  rw [analysed]

theorem verdict_of_error {s : Session} {path source : String} {problem : Problem}
    (analysed : s.analyse path source = .error problem) : s.verdict path source = .refused := by
  unfold verdict
  rw [analysed]

def verdictIn (s : Session) (readings : List (String × String)) (path : String) : Option Verdict :=
  (readings.reverse.lookup path).map (s.verdict path)

/-- What comes of the file at a path in a call, if the call reads it. A transformation that is refused does not count,
since it leaves the classes on the record. -/
def verdictBy (s : Session) (path : String) : Call → Option Verdict
  | .discover w => s.verdictIn (s.readings w) path
  | .transform _ id source =>
    if s.Transforms id ∧ s.pathOf (s.fileOf id) = path ∧
      s.cache.lookup path (Digest.fingerprint source) = .miss ∧ s.verdict path source = .learnt
    then some .learnt else none
  | .fileChanged w id .created => if s.inScope (s.fileOf id) then s.verdictIn (s.readings w) path else none
  | .fileChanged w id .changed =>
    if s.inScope (s.fileOf id) ∧ s.pathOf (s.fileOf id) = path
    then (w.read (s.fileOf id)).toOption.map (s.verdict path) else none
  | .fileChanged _ _ .deleted => none

def lastVerdict (path : String) : Session → List Call → Option Verdict
  | _, [] => none
  | s, call :: rest => (lastVerdict path (s.after call) rest).or (s.verdictBy path call)

theorem lastVerdict_append (path : String) (s : Session) (calls : List Call) (call : Call) :
    lastVerdict path s (calls ++ [call]) = ((s.run calls).verdictBy path call).or (lastVerdict path s calls) := by
  induction calls generalizing s with
  | nil => simp [lastVerdict]
  | cons first rest ih =>
    rw [List.cons_append, lastVerdict, ih, run_cons, lastVerdict, Option.or_assoc]

theorem verdictIn_append (s : Session) (readings : List (String × String)) (path source : String) :
    s.verdictIn (readings ++ [(path, source)]) =
      Function.update (s.verdictIn readings) path (some (s.verdict path source)) := by
  funext other
  unfold verdictIn
  rw [List.reverse_append, List.reverse_singleton, List.singleton_append, List.lookup_cons, Function.update_apply]
  by_cases same : other = path
  next => simp [same]
  next =>
    have differs : (other == path) = false := by simpa using same
    simp [same, differs]

theorem SameSettings.verdict {s s' : Session} (same : SameSettings s s') (path source : String) :
    s'.verdict path source = s.verdict path source := by
  unfold Session.verdict
  rw [same.analyse]

/-- Every class is on the record of its file if that was learnt last, and no class is if it was refused. -/
def Accounted (s : Session) (last : String → Option Verdict) : Prop :=
  ∀ (name : String) (d : Descriptor), s.registry.get? name = some d → ∃ r, s.cache[d.sourceFile]? = some r ∧
    (last d.sourceFile = some .learnt ∧ name ∈ r.definedClasses ∨
      last d.sourceFile = some .refused ∧ r.definedClasses = [])

section
variable {s s' : Session} {last : String → Option Verdict} (accounted : s.Accounted last)
include accounted

theorem Accounted.kept (registry : s.registry.Alike s'.registry)
    (records : ∀ path : String, s'.cache[path]?.map (·.definedClasses) = s.cache[path]?.map (·.definedClasses)) :
    s'.Accounted last := by
  intro name d found
  have same := registry.get name
  rw [found, Option.map_some, eq_comm, Option.map_eq_some_iff] at same
  obtain ⟨e, known, bare⟩ := same
  obtain ⟨r, present, account⟩ := accounted name e known
  rw [Descriptor.sourceFile_of_bare bare] at present account
  have listed := records d.sourceFile
  rw [present, Option.map_some, Option.map_eq_some_iff] at listed
  obtain ⟨r', present', lists⟩ := listed
  exact ⟨r', present', lists ▸ account⟩

theorem Accounted.update (path : String) {f : FileRecord → FileRecord}
    (lists : ∀ r, (f r).definedClasses = r.definedClasses) :
    ({ s with cache := s.cache.update path f } : Session).Accounted last := by
  refine accounted.kept ?_ ?_
  next => exact .refl s.registry
  intro other
  simp only [Cache.get_update]
  split <;> simp [Function.comp_def, lists]

theorem Accounted.dropOutputs : ({ s with cache := s.cache.invalidateAll } : Session).Accounted last := by
  refine accounted.kept ?_ ?_
  next => exact .refl s.registry
  intro path
  have lists (r : FileRecord) : (Cache.dropOutput r).definedClasses = r.definedClasses :=
    (Cache.marks_dropOutput r).definedClasses
  simp [Function.comp_def, lists]

theorem Accounted.resolve (w : Workspace) (path : String) : (s.resolveImports w path).2.Accounted last :=
  accounted.kept (Registry.setAllImports_alike _ _) fun _ => rfl

theorem Accounted.adopt (sound : s.registry.Sound) {path source : String} {a : Analysis}
    (analysed : s.analyse path source = .ok a) (diagnostics : List Diagnostic) :
    (s.adopt path source a diagnostics).Accounted (Function.update last path (some .learnt)) := by
  intro name d found
  have here : (s.registry.replace path (a.classes.map (·.descriptor))).get? name = some d := found
  rw [sound.get_replace, Option.or_eq_some_iff] at here
  rw [show (s.adopt path source a diagnostics).cache = s.cache.put _ from rfl, Cache.get_put]
  rcases here with new | ⟨_, old⟩
  next =>
    obtain ⟨member, named⟩ := Registry.lastDefined_eq_some new
    have source_eq := (analyse_classes analysed d member).1
    refine ⟨_, if_pos source_eq.symm, .inl ⟨by rw [source_eq, Function.update_self], ?_⟩⟩
    simpa [named] using List.mem_map_of_mem member (f := (·.name))
  next =>
    rw [Option.filter_eq_some_iff] at old
    have elsewhere : d.sourceFile ≠ path := by simpa using old.2
    rw [if_neg (Ne.symm elsewhere), Function.update_of_ne elsewhere]
    exact accounted name d old.1

theorem Accounted.refuse (path source : String) (problem : Problem) :
    ({ s with cache := s.cache.put (failedRecord path source problem []) } : Session).Accounted
      (Function.update last path (some .refused)) := by
  -- the classes of the file stay known, but the new record has none of them
  intro name d found
  simp only [Cache.get_put]
  by_cases own : d.sourceFile = path
  next => exact ⟨_, if_pos own.symm, .inr ⟨by rw [own, Function.update_self], rfl⟩⟩
  next =>
    rw [if_neg (show (failedRecord path source problem []).path ≠ d.sourceFile from Ne.symm own),
      Function.update_of_ne own]
    exact accounted name d found

theorem Accounted.refuseAgain (path source : String) (problem : Problem) :
    ({ s with cache := s.cache.put (failedRecord path source problem
        ((s.cache[path]?.map (·.definedClasses)).getD [])) } : Session).Accounted last := by
  intro name d found
  simp only [Cache.get_put]
  obtain ⟨r, present, account⟩ := accounted name d found
  by_cases own : d.sourceFile = path
  next =>
    -- the new record has the list of the old one
    subst own
    refine ⟨_, if_pos rfl, ?_⟩
    simpa [failedRecord, present] using account
  next =>
    rw [if_neg (show (failedRecord path source problem _).path ≠ d.sourceFile from Ne.symm own)]
    exact ⟨r, present, account⟩

theorem Accounted.define (sound : s.registry.Sound) (path source : String) :
    (s.define path source).2.Accounted (Function.update last path (some (s.verdict path source))) := by
  unfold Session.define
  cases analysed : s.analyse path source with
  | error problem =>
    rw [verdict_of_error analysed]
    exact accounted.refuse path source problem
  | ok a =>
    rw [verdict_of_ok analysed]
    exact accounted.adopt sound analysed _

theorem Accounted.forget (sound : s.registry.Sound) (path : String) : (s.forget path).Accounted last := by
  have erased : ({ s with registry := (s.registry.removeFile path).2, cache := s.cache.erase path } : Session).Accounted
      last := by
    intro name d found
    simp only [sound.coherent.get_removeFile, Option.filter_eq_some_iff] at found
    have elsewhere : path ≠ d.sourceFile := by
      rintro rfl
      simp at found
    simp only [Table.get_erase, if_neg elsewhere]
    exact accounted name d found.1
  exact erased.dropOutputs

end

theorem accounted_of_empty {s : Session} (empty : s.registry = .empty) (last : String → Option Verdict) :
    s.Accounted last := by
  intro name d found
  simp [empty, Registry.get?, Registry.empty] at found

theorem add_accounted {s : Session} {t : Tally} {readings : List (String × String)} (notes : t.Notes s readings)
    (sound : t.session.registry.Sound) (accounted : t.session.Accounted (s.verdictIn readings)) (w : Workspace)
    (file : String) : (t.add w file).session.Accounted (s.verdictIn (readings ++ (s.reading? w file).toList)) := by
  unfold Tally.add reading?
  rw [notes.settings.isExcluded]
  cases s.isExcluded file with
  | true => simpa using accounted
  | false =>
    simp only [Bool.false_eq_true, if_false]
    cases read : w.read file with
    | error fault => simpa [Except.toOption] using accounted
    | ok source =>
      have after := accounted.define sound (s.pathOf file) source
      rw [notes.settings.verdict, ← verdictIn_append] at after
      simp only [Except.toOption, Option.map_some, Option.toList_some, notes.settings.pathOf]
      cases outcome : t.session.define (s.pathOf file) source with
      | mk result session =>
        rw [outcome] at after
        cases result <;> exact after

theorem adds_accounted {s : Session} (w : Workspace) (files : List String) {t : Tally} {sources : Sources}
    {readings : List (String × String)} (has : t.Has s sources) (notes : t.Notes s readings)
    (accounted : t.session.Accounted (s.verdictIn readings)) :
    (files.foldl (Tally.add w) t).session.Accounted
      (s.verdictIn (readings ++ files.filterMap (s.reading? w))) := by
  induction files generalizing t sources readings with
  | nil => simpa using accounted
  | cons file rest ih =>
    have sound : t.session.registry.Sound := has.registry ▸ Registry.sound_readAll sources
    have more := ih (has.add w file) (notes.add w file) (add_accounted notes sound accounted w file)
    rw [List.append_assoc] at more
    cases found : s.reading? w file <;> simpa [found] using more

theorem Accounted.settles {s : Session} {last : String → Option Verdict} (accounted : s.Accounted last) (w : Workspace)
    (paths : List String) : (paths.foldl (settle w) s).Accounted last := by
  induction paths generalizing s with
  | nil => exact accounted
  | cons path rest ih => exact ih ((accounted.resolve w path).update path fun _ => rfl)

theorem discover_accounted (s : Session) (w : Workspace) :
    (s.discover w).2.Accounted (s.verdictIn (s.readings w)) := by
  have cleared : SameSettings s { s.cleared with generation := s.generation + 1 } := ⟨rfl, rfl, rfl, rfl, rfl⟩
  have has : Tally.Has s { session := { s.cleared with generation := s.generation + 1 } } [] :=
    ⟨cleared, rfl, by simp [Session.cleared], rfl⟩
  have notes : Tally.Notes s { session := { s.cleared with generation := s.generation + 1 } } [] :=
    ⟨cleared, rfl, by simp [Session.cleared]⟩
  -- the search starts without classes, so that nothing is left to account for from before
  have read := adds_accounted w (s.candidates w) has notes (accounted_of_empty rfl _)
  have settled := read.settles w ((s.candidates w).foldl (Tally.add w)
    { session := { s.cleared with generation := s.generation + 1 } }).discovered
  rw [List.nil_append] at settled
  rw [← cleared.candidates] at settled
  exact settled

theorem verdictBy_transform_of_answered {s : Session} {w : Workspace} {id source : String}
    (answered : s.cache.lookup (s.pathOf (s.fileOf id)) (Digest.fingerprint source) ≠ .miss) (path : String) :
    s.verdictBy path (.transform w id source) = none := by
  rw [verdictBy, if_neg]
  rintro ⟨_, rfl, miss, _⟩
  exact answered miss

theorem or_eq_update {current last : String → Option Verdict} {path : String} {verdict : Verdict}
    (own : current path = some verdict) (others : ∀ other, other ≠ path → current other = none) :
    (fun other => (current other).or (last other)) = Function.update last path (some verdict) := by
  funext other
  by_cases same : other = path
  next => rw [same, own, Function.update_self, Option.some_or]
  next => rw [others other same, Function.update_of_ne same, Option.none_or]

section
variable {s : Session} {last : String → Option Verdict} (accounted : s.Accounted last)
include accounted

theorem Accounted.or (earlier : String → Option Verdict) : s.Accounted fun path => (last path).or (earlier path) := by
  intro name d known
  obtain ⟨r, present, account⟩ := accounted name d known
  refine ⟨r, present, ?_⟩
  rcases account with ⟨learnt, listed⟩ | ⟨refused, empty⟩
  next => exact .inl ⟨by simp only [learnt, Option.some_or], listed⟩
  next => exact .inr ⟨by simp only [refused, Option.some_or], empty⟩

theorem Accounted.idle {current : String → Option Verdict} (unread : ∀ path, current path = none) :
    s.Accounted fun path => (current path).or (last path) := by
  simpa only [unread, Option.none_or] using accounted

theorem Accounted.relearn (sound : s.registry.Sound) {w : Workspace} {file source : String}
    (read : w.read file = .ok source) :
    (s.relearn w file).2.Accounted
      (Function.update last (s.pathOf file) (some (s.verdict (s.pathOf file) source))) := by
  have after := accounted.define sound (s.pathOf file) source
  unfold Session.relearn
  simp only [read]
  cases outcome : s.define (s.pathOf file) source with
  | mk result session =>
    rw [outcome] at after
    cases result with
    | error problem => exact after
    | ok _ =>
      have settled := (after.resolve w (s.pathOf file)).update (s.pathOf file) fun r =>
        (rfl : ({ r with state := .importsResolved } : FileRecord).definedClasses = r.definedClasses)
      exact settled.dropOutputs

theorem Accounted.changed (sound : s.registry.Sound) (w : Workspace) (id : String) :
    (s.fileChanged w id .changed).2.Accounted
      fun path => (s.verdictBy path (.fileChanged w id .changed)).or (last path) := by
  have invalidated : (s.invalidated (s.pathOf (s.fileOf id))).Accounted last :=
    accounted.update (s.pathOf (s.fileOf id)) fun _ => rfl
  have same := sameSettings_invalidated s (s.pathOf (s.fileOf id))
  rw [fileChanged_changed]
  split
  next inside =>
    simp only
    cases read : w.read (s.fileOf id) with
    | error fault =>
      have unread : ((s.invalidated (s.pathOf (s.fileOf id))).relearn w (s.fileOf id)).2 =
          s.invalidated (s.pathOf (s.fileOf id)) := by
        unfold Session.relearn
        simp only [read]
      rw [unread]
      exact invalidated.idle fun path => by simp [verdictBy, read, Except.toOption]
    | ok source =>
      have learnt := invalidated.relearn sound read
      rw [same.pathOf, same.verdict] at learnt
      have current : (fun path => (s.verdictBy path (.fileChanged w id .changed)).or (last path)) =
          Function.update last (s.pathOf (s.fileOf id)) (some (s.verdict (s.pathOf (s.fileOf id)) source)) := by
        apply or_eq_update
        next => simp [verdictBy, inside, read, Except.toOption]
        next =>
          intro other differs
          simp [verdictBy, Ne.symm differs]
      rw [current]
      exact learnt
  next outside => exact invalidated.idle fun path => by simp [verdictBy, outside]

theorem Accounted.transform (sound : s.registry.Sound) (w : Workspace) (id source : String) :
    (s.transform w id source).2.Accounted
      fun path => (s.verdictBy path (.transform w id source)).or (last path) := by
  by_cases transforms : s.Transforms id
  next =>
    rw [transform_eq transforms]
    cases looked : s.cache.lookup (s.pathOf (s.fileOf id)) (Digest.fingerprint source) with
    | hit output => exact accounted.idle (verdictBy_transform_of_answered (by simp [looked]))
    | failed problem => exact accounted.idle (verdictBy_transform_of_answered (by simp [looked]))
    | miss =>
      simp only
      rw [transformNew_eq]
      cases analysed : s.analyse (s.pathOf (s.fileOf id)) source with
      | error problem =>
        refine (accounted.refuseAgain _ source problem).idle fun path => ?_
        rw [verdictBy, if_neg]
        rintro ⟨_, rfl, _, learnt⟩
        cases learnt.symm.trans (verdict_of_error analysed)
      | ok a =>
        have current : (fun path => (s.verdictBy path (.transform w id source)).or (last path)) =
            Function.update last (s.pathOf (s.fileOf id)) (some .learnt) := by
          apply or_eq_update
          next => rw [verdictBy, if_pos ⟨transforms, rfl, looked, verdict_of_ok analysed⟩]
          next =>
            intro other differs
            rw [verdictBy, if_neg]
            rintro ⟨_, rfl, _⟩
            exact differs rfl
        have resolved := (accounted.adopt sound analysed []).resolve w (s.pathOf (s.fileOf id))
        rw [current]
        simp only
        split
        next => exact resolved.update _ fun _ => rfl
        next => exact resolved.update _ fun _ => rfl
  next =>
    rw [transform_outside transforms]
    refine accounted.idle fun path => ?_
    rw [verdictBy, if_neg]
    rintro ⟨inside, _⟩
    exact transforms inside

theorem Accounted.after (sound : s.registry.Sound) (call : Call) :
    (s.after call).Accounted fun path => (s.verdictBy path call).or (last path) := by
  cases call with
  | discover w => exact (discover_accounted s w).or last
  | transform w id source => exact accounted.transform sound w id source
  | fileChanged w id change =>
    cases change with
    | created =>
      change (s.fileChanged w id .created).2.Accounted _
      unfold fileChanged
      simp only
      split
      next inside => simpa only [verdictBy, if_pos inside] using (discover_accounted s w).or last
      next outside => exact accounted.idle fun path => by simp [verdictBy, outside]
    | deleted => exact (accounted.forget sound _).idle fun _ => rfl
    | changed => exact accounted.changed sound w id

end

theorem run_accounted {start : Session} (empty : start.registry = .empty) (calls : List Call) :
    (start.run calls).Accounted fun path => lastVerdict path start calls := by
  induction calls using List.reverseRecOn with
  | nil => exact accounted_of_empty empty _
  | append_singleton calls call ih =>
    have sound := run_sound (empty ▸ Registry.sound_empty) calls
    rw [run_append, run_cons, run_nil]
    simpa only [lastVerdict_append] using ih.after sound call

/-- Whatever calls were made, every class that is known has a record under the path of its file. The class is on the
record if the file was learnt when it was last read. If it was refused then, by a search or after a change, the record
lists no classes at all. There is no third case. -/
theorem classes_on_record_unless_refused_last {root : String} {config : Config} {start : Session}
    (created : create root config = .ok start) (calls : List Call) {name : String} {d : Descriptor}
    (known : (start.run calls).registry.get? name = some d) :
    ∃ r, (start.run calls).cache[d.sourceFile]? = some r ∧
      (lastVerdict d.sourceFile start calls = some .learnt ∧ d.name ∈ r.definedClasses ∨
        lastVerdict d.sourceFile start calls = some .refused ∧ r.definedClasses = []) := by
  have named := (run_sound (create_sound created) calls).coherent.named known
  rw [named]
  exact run_accounted (create_eq created).2.1 calls name d known

set_option maxRecDepth 100000 in
theorem class_on_record_after_refused_transform :
    let config := Config.default.withMapping "N" (.path "/src")
    let w : Workspace := ⟨[("src", .directory [("A.js", .file (.text "Ext.define('N.A',\x7b\x7d)"))])]⟩
    let calls := [.discover w, .transform w "/r/src/A.js" "f("]
    ∃ start, create "/r" config = .ok start ∧ lastVerdict "/src/A" start calls = some .learnt ∧
      ∃ d, (start.run calls).registry.get? "N.A" = some d ∧ d.sourceFile = "/src/A" ∧
        ∃ r, (start.run calls).cache["/src/A"]? = some r ∧ r.state = .failed ∧ d.name ∈ r.definedClasses := by
  -- A transformation that is refused leaves the class on the record.
  intro config w calls
  have runs : ∃ start, create "/r" config = .ok start ∧ lastVerdict "/src/A" start calls = some .learnt ∧
      ((start.run calls).registry.get? "N.A").map (·.sourceFile) = some "/src/A" ∧
      (start.run calls).cache["/src/A"]?.map (·.state) = some .failed :=
    ⟨_, rfl, by decide +kernel⟩
  obtain ⟨start, created, learnt, owned, failed⟩ := runs
  obtain ⟨d, known, file⟩ := Option.map_eq_some_iff.mp owned
  obtain ⟨r, present, account⟩ := classes_on_record_unless_refused_last created calls known
  rw [file] at present account
  rw [present, Option.map_some, Option.some.injEq] at failed
  rcases account with ⟨_, listed⟩ | ⟨refused, _⟩
  next => exact ⟨start, created, learnt, d, known, file, r, present, failed, listed⟩
  next => cases learnt.symm.trans refused

set_option maxRecDepth 100000 in
/-- After a change that is refused the class is still known, but its record has lost it. -/
theorem class_off_record_after_refused_change :
    let config := Config.default.withMapping "N" (.path "/src")
    let w : Workspace := ⟨[("src", .directory [("A.js", .file (.text "Ext.define('N.A',\x7b\x7d)"))])]⟩
    let broken : Workspace := ⟨[("src", .directory [("A.js", .file (.text "f("))])]⟩
    let calls := [.discover w, .fileChanged broken "/r/src/A.js" .changed]
    ∃ start, create "/r" config = .ok start ∧
      ((start.run calls).registry.get? "N.A").map (·.sourceFile) = some "/src/A" ∧
      (start.run calls).cache["/src/A"]?.map (·.definedClasses) = some [] :=
  ⟨_, rfl, by decide +kernel⟩

end Session

end ClassLinker
