import ClassLinker.Proofs.RequestOrder

set_option autoImplicit false

namespace ClassLinker.Session

/-- Sessions that differ at most in the record under one path. -/
structure SameButFor (path : String) (s s' : Session) : Prop where
  rest : s' = { s with cache := s'.cache }
  records : ∀ other : String, other ≠ path → s'.cache[other]? = s.cache[other]?

theorem sameButFor_put (s : Session) (r : FileRecord) : SameButFor r.path s { s with cache := s.cache.put r } where
  rest := rfl
  records := fun other differs => by rw [Cache.get_put, if_neg (Ne.symm differs)]

theorem sameButFor_invalidated (s : Session) (path : String) : SameButFor path s (s.invalidated path) where
  rest := rfl
  records := fun other differs => by
    rw [invalidated, Cache.invalidate, Cache.get_update, if_neg (Ne.symm differs)]

namespace SameButFor

theorem refl (path : String) (s : Session) : SameButFor path s s := ⟨rfl, fun _ _ => rfl⟩

theorem trans {path : String} {a b c : Session} (first : SameButFor path a b) (second : SameButFor path b c) :
    SameButFor path a c where
  rest := by rw [second.rest, first.rest]
  records := fun other differs => (second.records other differs).trans (first.records other differs)

section
variable {path own : String} {s s' : Session} (same : SameButFor path s s')
include same

theorem settings : SameSettings s s' := by
  rw [same.rest]
  exact ⟨rfl, rfl, rfl, rfl, rfl⟩

theorem put (r : FileRecord) : SameButFor path { s with cache := s.cache.put r } { s' with cache := s'.cache.put r } where
  rest := by rw [same.rest]
  records := by
    intro other differs
    rw [Cache.get_put, Cache.get_put, same.records other differs]

theorem update (f : FileRecord → FileRecord) :
    SameButFor path { s with cache := s.cache.update own f } { s' with cache := s'.cache.update own f } where
  rest := by rw [same.rest]
  records := by
    intro other differs
    rw [Cache.get_update, Cache.get_update, same.records other differs]

theorem adopt (source : String) (a : Analysis) (diagnostics : List Diagnostic) :
    SameButFor path (s.adopt own source a diagnostics) (s'.adopt own source a diagnostics) := by
  have replaced : SameButFor path (s.replaceClasses own (a.classes.map (·.descriptor)))
      (s'.replaceClasses own (a.classes.map (·.descriptor))) := by
    refine ⟨?_, same.records⟩
    rw [same.rest]
    rfl
  exact replaced.put _

variable (differs : own ≠ path)
include differs

-- of the records, only that of the file itself is looked at: for the imports which its source has already
theorem resolveImports (w : Workspace) :
    (s'.resolveImports w own).1 = (s.resolveImports w own).1 ∧
      SameButFor path (s.resolveImports w own).2 (s'.resolveImports w own).2 := by
  obtain ⟨rest, records⟩ := same
  generalize s'.cache = cache at rest records
  subst rest
  unfold Session.resolveImports
  simp only [records own differs]
  exact ⟨rfl, rfl, records⟩

theorem transformNew (w : Workspace) (source : String) :
    (s'.transformNew w own source).1 = (s.transformNew w own source).1 ∧
      SameButFor path (s.transformNew w own source).2 (s'.transformNew w own source).2 := by
  rw [transformNew_eq, transformNew_eq, same.settings.analyse]
  cases s.analyse own source with
  | error problem =>
    simp only [same.records own differs]
    exact ⟨trivial, same.put _⟩
  | ok a =>
    have adopted : SameButFor path (s.adopt own source a []) (s'.adopt own source a []) := same.adopt source a []
    obtain ⟨imports, resolved⟩ := adopted.resolveImports differs w
    simp only [imports, same.settings.checkUnmapped]
    cases s.checkUnmapped ((s.adopt own source a []).resolveImports w own).1.missing.count with
    | error problem => exact ⟨rfl, resolved.update _⟩
    | ok _ =>
      refine ⟨congrArg Except.ok (same.settings.render own source a _), ?_⟩
      have output := resolved.settings.render own source a ((s.adopt own source a []).resolveImports w own).1
      unfold served
      simp only [imports, output]
      exact resolved.update _

end

theorem transform {path : String} {s s' : Session} (same : SameButFor path s s') (w : Workspace) {id : String}
    (differs : s.pathOf (s.fileOf id) ≠ path) (source : String) :
    (s'.transform w id source).1 = (s.transform w id source).1 ∧
      SameButFor path (s.transform w id source).2 (s'.transform w id source).2 := by
  have looked : s'.cache.lookup (s.pathOf (s.fileOf id)) (Digest.fingerprint source) =
      s.cache.lookup (s.pathOf (s.fileOf id)) (Digest.fingerprint source) := by
    unfold Cache.lookup
    rw [same.records _ differs]
  unfold Session.transform
  simp only [same.settings.fileOf, same.settings.inScope, same.settings.pathOf, looked]
  split
  next => exact ⟨rfl, same⟩
  next =>
    cases s.cache.lookup (s.pathOf (s.fileOf id)) (Digest.fingerprint source) with
    | hit output => exact ⟨rfl, same⟩
    | failed problem => exact ⟨rfl, same⟩
    | miss =>
      obtain ⟨outcome, still⟩ := same.transformNew differs w source
      exact ⟨by rw [outcome], still⟩

theorem answers {path : String} {s s' : Session} (same : SameButFor path s s') (w : Workspace)
    {requests : List (String × String)} (others : ∀ request ∈ requests, s.pathOf (s.fileOf request.1) ≠ path) :
    s'.answers w requests = s.answers w requests := by
  induction requests generalizing s s' with
  | nil => rfl
  | cons request rest ih =>
    obtain ⟨id, source⟩ := request
    obtain ⟨answer, still⟩ := same.transform w (others (id, source) (by simp)) source
    -- the settings tell the paths, and no transformation changes them
    have settings : SameSettings s (s.transform w id source).2 := run_sameSettings s [.transform w id source]
    rw [Session.answers, Session.answers, answer, ih still]
    intro request member
    rw [settings.fileOf, settings.pathOf]
    exact others request (by simp [member])

end SameButFor

/-- The call ends in an error that the file at a path is to blame for: its source is no program, or it cannot be
read. -/
inductive Fails (s : Session) : Call → String → Prop where
  | transform {w : Workspace} {id source file : String} {position : Text.Position} {message : String}
      (refused : (s.transform w id source).1 = .error (.syntaxError file position message)) :
      Fails s (.transform w id source) (s.pathOf (s.fileOf id))
  | changed {w : Workspace} {id : String} {problem : Problem}
      (failed : (s.fileChanged w id .changed).1 = .error problem) :
      Fails s (.fileChanged w id .changed) (s.pathOf (s.fileOf id))

theorem transformNew_refused {s : Session} {w : Workspace} {path source file : String} {position : Text.Position}
    {message : String} (refused : (s.transformNew w path source).1 = .error (.syntaxError file position message)) :
    SameButFor path s (s.transformNew w path source).2 := by
  rw [transformNew_eq] at refused ⊢
  cases analysed : s.analyse path source with
  | error problem => exact sameButFor_put s (failedRecord path source problem _)
  | ok a =>
    rw [analysed] at refused
    simp only at refused
    -- past the analysis, the only error is that of the policy
    unfold checkUnmapped at refused
    split at refused
    next problem stopped =>
      split at stopped
      next =>
        cases stopped
        cases refused
      next => cases stopped
    next => cases refused

theorem relearn_failed {s : Session} {w : Workspace} {file : String} {problem : Problem}
    (failed : (s.relearn w file).1 = .error problem) : SameButFor (s.pathOf file) s (s.relearn w file).2 := by
  unfold relearn define at failed ⊢
  cases read : w.read file with
  | error fault => exact .refl _ s
  | ok source =>
    simp only [read] at failed ⊢
    cases analysed : s.analyse (s.pathOf file) source with
    | error problem => exact sameButFor_put s (failedRecord (s.pathOf file) source problem [])
    | ok a =>
      rw [analysed] at failed
      cases failed

theorem transform_refused {s : Session} {w : Workspace} {id source file : String} {position : Text.Position}
    {message : String} (refused : (s.transform w id source).1 = .error (.syntaxError file position message)) :
    SameButFor (s.pathOf (s.fileOf id)) s (s.transform w id source).2 := by
  by_cases transforms : s.Transforms id
  next =>
    rw [transform_eq transforms] at refused ⊢
    split
    next => exact .refl _ s
    next => exact .refl _ s
    next missed =>
      rw [missed] at refused
      simp only at refused
      cases outcome : (s.transformNew w (s.pathOf (s.fileOf id)) source).1 with
      | error problem =>
        rw [outcome] at refused
        cases refused
        exact transformNew_refused outcome
      | ok output =>
        rw [outcome] at refused
        cases refused
  next =>
    rw [transform_outside transforms]
    exact .refl _ s

theorem fileChanged_failed {s : Session} {w : Workspace} {id : String} {problem : Problem}
    (failed : (s.fileChanged w id .changed).1 = .error problem) :
    SameButFor (s.pathOf (s.fileOf id)) s (s.fileChanged w id .changed).2 := by
  have invalidated := sameButFor_invalidated s (s.pathOf (s.fileOf id))
  by_cases scope : s.inScope (s.fileOf id) = true
  next =>
    rw [fileChanged_changed, if_pos scope] at failed ⊢
    simp only at failed ⊢
    cases learnt : ((s.invalidated (s.pathOf (s.fileOf id))).relearn w (s.fileOf id)).1 with
    | error problem =>
      have kept := relearn_failed learnt
      rw [invalidated.settings.pathOf] at kept
      exact invalidated.trans kept
    | ok _ =>
      rw [learnt] at failed
      cases failed
  next =>
    rw [fileChanged_changed, if_neg scope] at failed
    cases failed

theorem Fails.sameButFor {s : Session} {call : Call} {path : String} (fails : s.Fails call path) :
    SameButFor path s (s.after call) := by
  cases fails with
  | transform refused => exact transform_refused refused
  | changed failed => exact fileChanged_failed failed

/-- A call that fails because a file is no program or cannot be read leaves the classes, the claims, the report, the
count of searches and the records of all other files as they were, and whatever transformations of other files
follow, each gives what it would have given without that call. Files are told apart by their paths. -/
theorem failed_call_leaves_other_files {s : Session} {call : Call} {path : String} (fails : s.Fails call path) :
    let s' := s.after call
    (s'.registry = s.registry ∧ s'.claims = s.claims ∧ s'.missing = s.missing ∧ s'.generation = s.generation ∧
      ∀ other : String, other ≠ path → s'.cache[other]? = s.cache[other]?) ∧
    (∀ w id source, s.pathOf (s.fileOf id) ≠ path → (s'.transform w id source).1 = (s.transform w id source).1) ∧
    ∀ w requests, (∀ request ∈ requests, s.pathOf (s.fileOf request.1) ≠ path) →
      s'.answers w requests = s.answers w requests := by
  intro s'
  have same : SameButFor path s s' := fails.sameButFor
  refine ⟨⟨?_, ?_, ?_, ?_, same.records⟩, ?_, ?_⟩
  next => rw [same.rest]
  next => rw [same.rest]
  next => rw [same.rest]
  next => rw [same.rest]
  next => exact fun w id source differs => (same.transform w differs source).1
  next => exact fun w requests others => same.answers w others

set_option maxRecDepth 100000 in
theorem failed_change_leaves_user_of_class :
    let config := Config.default.withMapping "N" (.path "/src")
    let w : Workspace := ⟨[("src", .directory [("A.js", .file (.text "Ext.define('N.A',\x7b\x7d)"))])]⟩
    let broken : Workspace := ⟨[("src", .directory [("A.js", .file (.text "f("))])]⟩
    let user := "Ext.define('N.B',\x7buses:'N.A'\x7d)"
    ∃ start, create "/r" config = .ok start ∧
      let s := (start.discover w).2
      let s' := s.after (.fileChanged broken "/r/src/A.js" .changed)
      s.Fails (.fileChanged broken "/r/src/A.js" .changed) (s.pathOf (s.fileOf "/r/src/A.js")) ∧
      s'.cache["/src/A"]?.map (·.state) = some .failed ∧
      s.pathOf (s.fileOf "/r/src/B.js") ≠ s.pathOf (s.fileOf "/r/src/A.js") ∧
      ∃ o, (s.transform broken "/r/src/B.js" user).1 = .ok (some o) ∧ o.imports = ["/src/A.js"] ∧
        (s'.transform broken "/r/src/B.js" user).1 = .ok (some o) := by
  -- A file stops to be a program, and a file that uses its class is transformed as before.
  intro config w broken user
  have runs : ∃ start, create "/r" config = .ok start ∧
      let s := (start.discover w).2
      (s.fileChanged broken "/r/src/A.js" .changed).1.isOk = false ∧
      (s.after (.fileChanged broken "/r/src/A.js" .changed)).cache["/src/A"]?.map (·.state) = some .failed ∧
      s.pathOf (s.fileOf "/r/src/B.js") ≠ s.pathOf (s.fileOf "/r/src/A.js") ∧
      ((s.transform broken "/r/src/B.js" user).1.toOption.bind id).map (·.imports) = some ["/src/A.js"] :=
    ⟨_, rfl, by decide +kernel⟩
  obtain ⟨start, created, failed, state, differs, imports⟩ := runs
  have fails : (start.discover w).2.Fails (.fileChanged broken "/r/src/A.js" .changed)
      ((start.discover w).2.pathOf ((start.discover w).2.fileOf "/r/src/A.js")) := by
    cases outcome : ((start.discover w).2.fileChanged broken "/r/src/A.js" .changed).1 with
    | error problem => exact .changed outcome
    | ok _ => simp [outcome, Except.isOk, Except.toBool] at failed
  have same := (failed_call_leaves_other_files fails).2.1 broken "/r/src/B.js" user differs
  refine ⟨start, created, fails, state, differs, ?_⟩
  rcases answer : ((start.discover w).2.transform broken "/r/src/B.js" user).1 with problem | none | o
  next => simp [answer, Except.toOption] at imports
  next => simp [answer, Except.toOption] at imports
  next => exact ⟨o, rfl, by simpa [answer, Except.toOption] using imports, same.trans answer⟩

end ClassLinker.Session
