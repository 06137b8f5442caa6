import Mathlib.Data.List.Nodup
import Mathlib.Data.Set.Defs
import ClassLinker.Proofs.Table

set_option autoImplicit false

namespace ClassLinker

namespace Claims

structure Granted (c c' : Claims) (file : String) (paths : List String) : Prop where
  policy : c'.policy = c.policy
  shared : c.policy = .file → c' = c
  owner : c.policy = .global → ∀ path, c'.owner? path = if path ∈ paths then some file else c.owner? path
  free : c.policy = .global → ∀ path ∈ paths, ∀ other, c.owner? path = some other → other = file

theorem Granted.refl (c : Claims) (file : String) : c.Granted c file [] where
  policy := rfl
  shared := fun _ => rfl
  owner := by simp
  free := by simp

theorem Granted.trans {a b c : Claims} {file : String} {xs ys : List String}
    (first : a.Granted b file xs) (second : b.Granted c file ys) : a.Granted c file (xs ++ ys) where
  policy := second.policy.trans first.policy
  shared := fun shared => (second.shared (first.policy.trans shared)).trans (first.shared shared)
  owner := by
    intro once path
    rw [second.owner (first.policy.trans once), first.owner once]
    by_cases later : path ∈ ys
    next => simp [later]
    next => by_cases sooner : path ∈ xs <;> simp [later, sooner]
  free := by
    intro once path member other taken
    rcases List.mem_append.mp member with sooner | later
    next => exact first.free once path sooner other taken
    next =>
      apply second.free (first.policy.trans once) path later
      rw [first.owner once]
      split
      next sooner => rw [first.free once path sooner other taken]
      next => exact taken

theorem claim_granted {c : Claims} {path file : String} (granted : (c.claim path file).1 = true) :
    c.Granted (c.claim path file).2 file [path] := by
  unfold claim at granted ⊢
  cases policy : c.policy with
  | file => exact ⟨rfl, fun _ => rfl, by simp [policy], by simp [policy]⟩
  | global =>
    simp only [policy] at granted ⊢
    cases found : c.owners[path]? with
    | none =>
      refine ⟨policy.symm, by simp [policy], ?_, ?_⟩
      next =>
        intro _ other
        by_cases same : path = other
        next => simp [owner?, same]
        next => simp [owner?, same, Ne.symm same]
      next => simp [owner?, found]
    | some owner =>
      simp only [found, beq_iff_eq] at granted
      refine ⟨rfl, by simp [policy], ?_, ?_⟩
      next =>
        intro _ other
        by_cases same : other = path
        next => simp [owner?, same, found, granted]
        next => simp [same]
      next =>
        intro _ other member holder taken
        rw [List.mem_singleton] at member
        rw [member, owner?, found] at taken
        cases taken
        exact granted

theorem claim_refused {c : Claims} {path file : String} (refused : (c.claim path file).1 = false) :
    (c.claim path file).2 = c := by
  unfold claim at refused ⊢
  cases policy : c.policy with
  | file => rfl
  | global =>
    simp only [policy] at refused ⊢
    cases found : c.owners[path]? with
    | none => simp [found] at refused
    | some owner => rfl

@[simp] theorem policy_release (c : Claims) (file : String) : (c.release file).policy = c.policy := rfl

@[simp] theorem owner_release (c : Claims) (file path : String) :
    (c.release file).owner? path = (c.owner? path).filter (· ≠ file) := by
  simp [owner?, release]

end Claims

def Surroundings.entriesOf (s : Surroundings) (path : String) : List ImportEntry := .script path :: s.assetsOf path

theorem Surroundings.script_entriesOf (s : Surroundings) (path : String) :
    (s.entriesOf path).filterMap ImportEntry.script? = [path] := by
  unfold entriesOf assetsOf
  split <;> simp [ImportEntry.script?]

namespace Walk

def marks (w : Walk) : Set String := {path | path = w.owner ∨ w.emitted.contains path = true}

@[simp] theorem mem_marks (w : Walk) (path : String) :
    path ∈ w.marks ↔ path = w.owner ∨ w.emitted.contains path = true := Iff.rfl

def followOnce (visit : Descriptor → Walk → Walk) (w : Walk) (d : Descriptor) : Walk :=
  if w.visited.contains d.name then w else visit d (w.markVisited d.name)

def importPath (s : Surroundings) (w : Walk) (path : String) : Walk :=
  if (w.claim path).1 then (w.claim path).2.addScript path (s.assetsOf path) else (w.claim path).2

def followReference (s : Surroundings) (visit : Descriptor → Walk → Walk) (direct : Bool) (d : Descriptor) (w : Walk)
    (reference : String) : Walk :=
  match s.lead reference with
  | .paths found => found.foldl (emit s visit) w
  | .disabled => w
  | .missing namespaceName => if direct then w.addMissing d.name reference namespaceName else w
  | .cycle problem => w.addCycle problem

theorem visit_succ (s : Surroundings) (n : Nat) (direct : Bool) (d : Descriptor) (w : Walk) :
    visit s (n + 1) direct d w = d.references.foldl (followReference s (visit s n false) direct d) w := rfl

theorem emit_met {s : Surroundings} {visit : Descriptor → Walk → Walk} {w : Walk} {path : String}
    (met : path ∈ w.marks) : emit s visit w path = w := by
  unfold emit
  exact if_pos (by simpa using met)

theorem emit_unmet {s : Surroundings} {visit : Descriptor → Walk → Walk} {w : Walk} {path : String}
    (unmet : path ∉ w.marks) : emit s visit w path =
      importPath s ((s.registry.classesIn path).foldl (followOnce visit) (w.markEmitted path)) path := by
  unfold emit
  exact if_neg (by simpa using unmet)

/-- The walk `w'` is the walk `w` after it has imported the paths `fresh`. -/
structure Grows (s : Surroundings) (w w' : Walk) (fresh : List String) : Prop where
  owner : w'.owner = w.owner
  entries : w'.entries = w.entries ++ fresh.flatMap s.entriesOf
  distinct : fresh.Nodup
  foreign : w.owner ∉ fresh
  unmet : ∀ path ∈ fresh, w.emitted.contains path = false
  met : ∀ path ∈ fresh, w'.emitted.contains path = true
  kept : ∀ path, w.emitted.contains path = true → w'.emitted.contains path = true
  claims : ∀ c, w.claims = some c → ∃ c', w'.claims = some c' ∧ c.Granted c' w.owner fresh

def credited (byClass : List (String × List String)) (fresh : List String) : List (String × List String) :=
  match byClass with
  | (name, paths) :: rest => (name, paths ++ fresh) :: rest
  | [] => []

@[simp] theorem credited_nil (byClass : List (String × List String)) : credited byClass [] = byClass := by
  cases byClass <;> simp [credited]

theorem credited_append (byClass : List (String × List String)) (xs ys : List String) :
    credited byClass (xs ++ ys) = credited (credited byClass xs) ys := by
  cases byClass <;> simp [credited]

def Follows (s : Surroundings) (w w' : Walk) : Prop :=
  ∃ fresh, Grows s w w' fresh ∧ w'.byClass = credited w.byClass fresh

theorem Grows.quiet {s : Surroundings} {w w' : Walk} (owner : w'.owner = w.owner) (entries : w'.entries = w.entries)
    (emitted : w'.emitted = w.emitted) (claims : w'.claims = w.claims) : Grows s w w' [] where
  owner := owner
  entries := by simp [entries]
  distinct := List.nodup_nil
  foreign := by simp
  unmet := by simp
  met := by simp
  kept := by simp [emitted]
  claims := fun c present => ⟨c, claims.trans present, .refl c _⟩

theorem Grows.trans {s : Surroundings} {a b c : Walk} {xs ys : List String}
    (first : Grows s a b xs) (second : Grows s b c ys) : Grows s a c (xs ++ ys) where
  owner := second.owner.trans first.owner
  entries := by rw [second.entries, first.entries, List.flatMap_append, List.append_assoc]
  distinct := by
    rw [List.nodup_append]
    refine ⟨first.distinct, second.distinct, ?_⟩
    rintro path sooner _ later rfl
    have met := first.met path sooner
    rw [second.unmet path later] at met
    cases met
  foreign := by
    intro member
    rcases List.mem_append.mp member with sooner | later
    next => exact first.foreign sooner
    next => exact second.foreign (first.owner ▸ later)
  unmet := by
    intro path member
    rcases List.mem_append.mp member with sooner | later
    next => exact first.unmet path sooner
    next =>
      cases before : a.emitted.contains path with
      | false => rfl
      | true =>
        have after := first.kept path before
        rw [second.unmet path later] at after
        cases after
  met := by
    intro path member
    rcases List.mem_append.mp member with sooner | later
    next => exact second.kept path (first.met path sooner)
    next => exact second.met path later
  kept := fun path before => second.kept path (first.kept path before)
  claims := by
    intro before present
    obtain ⟨between, middle, granted⟩ := first.claims before present
    obtain ⟨after, final, more⟩ := second.claims between middle
    rw [first.owner] at more
    exact ⟨after, final, granted.trans more⟩

theorem Follows.refl (s : Surroundings) (w : Walk) : Follows s w w :=
  ⟨[], Grows.quiet rfl rfl rfl rfl, by simp⟩

theorem Follows.trans {s : Surroundings} {a b c : Walk} (first : Follows s a b) (second : Follows s b c) :
    Follows s a c := by
  obtain ⟨xs, grown, credit⟩ := first
  obtain ⟨ys, more, moreCredit⟩ := second
  exact ⟨xs ++ ys, grown.trans more, by rw [moreCredit, credit, credited_append]⟩

theorem Follows.foldl {s : Surroundings} {α : Type} {f : Walk → α → Walk}
    (each : ∀ w x, Follows s w (f w x)) (xs : List α) (w : Walk) : Follows s w (xs.foldl f w) := by
  induction xs generalizing w with
  | nil => exact Follows.refl s w
  | cons x rest ih => exact (each w x).trans (ih (f w x))

theorem follows_addMissing (s : Surroundings) (w : Walk) (className reference namespaceName : String) :
    Follows s w (w.addMissing className reference namespaceName) :=
  ⟨[], Grows.quiet rfl rfl rfl rfl, by simp [addMissing, addFinding]⟩

theorem follows_addCycle (s : Surroundings) (w : Walk) (problem : Problem) : Follows s w (w.addCycle problem) := by
  unfold addCycle
  simp only
  split
  next => exact Follows.refl s w
  next => exact ⟨[], Grows.quiet rfl rfl rfl rfl, by simp [addFinding]⟩

theorem follows_markVisited (s : Surroundings) (w : Walk) (name : String) : Follows s w (w.markVisited name) :=
  ⟨[], Grows.quiet rfl rfl rfl rfl, by simp [markVisited]⟩

theorem claim_fields (w : Walk) (path : String) :
    (w.claim path).2.owner = w.owner ∧ (w.claim path).2.entries = w.entries ∧
      (w.claim path).2.byClass = w.byClass ∧ (w.claim path).2.emitted = w.emitted := by
  unfold claim
  cases w.claims <;> exact ⟨rfl, rfl, rfl, rfl⟩

theorem claim_granted {w : Walk} {path : String} (granted : (w.claim path).1 = true) :
    ∀ c, w.claims = some c → ∃ c', (w.claim path).2.claims = some c' ∧ c.Granted c' w.owner [path] := by
  intro c present
  unfold claim at granted ⊢
  rw [present] at granted ⊢
  exact ⟨_, rfl, Claims.claim_granted granted⟩

theorem claim_refused {w : Walk} {path : String} (refused : (w.claim path).1 = false) :
    (w.claim path).2.claims = w.claims := by
  unfold claim at refused ⊢
  cases present : w.claims with
  | none => exact present
  | some c =>
    rw [present] at refused
    exact congrArg some (Claims.claim_refused refused)

theorem grows_import {s : Surroundings} {w : Walk} {path : String} (foreign : path ≠ w.owner)
    (unmet : w.emitted.contains path = false) {between : Walk} (followed : Follows s (w.markEmitted path) between) :
    Follows s w (importPath s between path) := by
  -- The last part of meeting a path: it is imported if the claims allow it. Since the path was marked first, what
  -- was imported in between is other than it.
  unfold importPath
  obtain ⟨fresh, grown, credit⟩ := followed
  have absent : path ∉ fresh := by
    intro member
    have marked := grown.unmet path member
    simp [markEmitted] at marked
  have earlier (other : String) (member : other ∈ fresh) : w.emitted.contains other = false := by
    have := grown.unmet other member
    cases before : w.emitted.contains other with
    | false => rfl
    | true => simp [markEmitted, before] at this
  have marked : between.emitted.contains path = true := grown.kept path (by simp [markEmitted])
  have keptAll (other : String) (before : w.emitted.contains other = true) :
      between.emitted.contains other = true := grown.kept other (by simp [markEmitted, before])
  obtain ⟨owner, entries, byClass, emitted⟩ := claim_fields between path
  cases granted : (between.claim path).1 with
  | false =>
    refine ⟨fresh, ⟨owner.trans grown.owner, ?_, grown.distinct, grown.foreign, earlier, ?_, ?_, ?_⟩, ?_⟩
    next => exact entries.trans grown.entries
    next =>
      intro other member
      simpa [emitted] using grown.met other member
    next =>
      intro other before
      simpa [emitted] using keptAll other before
    next =>
      intro c present
      obtain ⟨c', after, given⟩ := grown.claims c present
      exact ⟨c', (claim_refused granted).trans after, given⟩
    next => exact byClass.trans credit
  | true =>
    refine ⟨fresh ++ [path], ⟨owner.trans grown.owner, ?_, ?_, ?_, ?_, ?_, ?_, ?_⟩, ?_⟩
    next =>
      have before : between.entries = w.entries ++ fresh.flatMap s.entriesOf := grown.entries
      simp [addScript, entries, before, Surroundings.entriesOf]
    next =>
      rw [List.nodup_append]
      refine ⟨grown.distinct, by simp, ?_⟩
      rintro other member _ last rfl
      exact absent ((List.mem_singleton.mp last) ▸ member)
    next =>
      intro member
      rcases List.mem_append.mp member with sooner | last
      next => exact grown.foreign sooner
      next => exact foreign (List.mem_singleton.mp last).symm
    next =>
      intro other member
      rcases List.mem_append.mp member with sooner | last
      next => exact earlier other sooner
      next => exact (List.mem_singleton.mp last) ▸ unmet
    next =>
      intro other member
      rcases List.mem_append.mp member with sooner | last
      next => simpa [addScript, emitted] using grown.met other sooner
      next =>
        rw [List.mem_singleton.mp last]
        simpa [addScript, emitted] using marked
    next =>
      intro other before
      simpa [addScript, emitted] using keptAll other before
    next =>
      intro c present
      obtain ⟨middle, after, given⟩ := grown.claims c present
      obtain ⟨c', final, more⟩ := claim_granted granted middle after
      rw [grown.owner] at more
      exact ⟨c', final, given.trans more⟩
    next =>
      have before : (between.claim path).2.byClass = credited w.byClass fresh := byClass.trans credit
      rw [credited_append, ← before]
      rfl

theorem follows_emit {s : Surroundings} {visit : Descriptor → Walk → Walk}
    (visited : ∀ d w, Follows s w (visit d w)) (w : Walk) (path : String) : Follows s w (emit s visit w path) := by
  by_cases met : path ∈ w.marks
  next =>
    rw [emit_met met]
    exact Follows.refl s w
  next =>
    rw [emit_unmet met]
    rw [mem_marks, not_or, Bool.not_eq_true] at met
    apply grows_import met.1 met.2
    apply Follows.foldl
    intro w d
    unfold followOnce
    split
    next => exact Follows.refl s w
    next => exact (follows_markVisited s w d.name).trans (visited d _)

theorem follows_visit (s : Surroundings) (n : Nat) (direct : Bool) (d : Descriptor) (w : Walk) :
    Follows s w (visit s n direct d w) := by
  induction n generalizing direct d w with
  | zero => exact Follows.refl s w
  | succ n ih =>
    rw [visit_succ]
    apply Follows.foldl
    intro w reference
    unfold followReference
    cases lead : s.lead reference with
    | paths found => exact Follows.foldl (follows_emit (ih false)) found w
    | disabled => exact Follows.refl s w
    | missing namespaceName =>
      cases direct with
      | true => exact follows_addMissing s w d.name reference namespaceName
      | false => exact Follows.refl s w
    | cycle problem => exact follows_addCycle s w problem

theorem visitOwn_grows (s : Surroundings) (w : Walk) (d : Descriptor) :
    ∃ fresh, Grows s w (visitOwn s w d) fresh ∧ (visitOwn s w d).byClass = (d.name, fresh) :: w.byClass := by
  obtain ⟨fresh, grown, credit⟩ :=
    follows_visit s (s.registry.size + 1) true d { w with byClass := (d.name, []) :: w.byClass }
  exact ⟨fresh, ⟨grown.owner, grown.entries, grown.distinct, grown.foreign, grown.unmet, grown.met, grown.kept,
    grown.claims⟩, by simpa [credited, visitOwn] using credit⟩

theorem visitOwns_grows (s : Surroundings) (classes : List Descriptor) (w : Walk) :
    ∃ own : List (String × List String), own.map (·.1) = classes.map (·.name) ∧
      Grows s w (classes.foldl (visitOwn s) w) (own.flatMap (·.2)) ∧
      (classes.foldl (visitOwn s) w).byClass = own.reverse ++ w.byClass := by
  induction classes generalizing w with
  | nil => exact ⟨[], rfl, Grows.quiet rfl rfl rfl rfl, rfl⟩
  | cons d rest ih =>
    obtain ⟨fresh, grown, byClass⟩ := visitOwn_grows s w d
    obtain ⟨own, names, more, lists⟩ := ih (visitOwn s w d)
    refine ⟨(d.name, fresh) :: own, by simp [names], ?_, ?_⟩
    next => simpa using grown.trans more
    next => rw [List.foldl_cons, lists, byClass, List.reverse_cons, List.append_assoc, List.singleton_append]

end Walk

def ResolvedImports.scripts (found : ResolvedImports) : List String := found.byClass.flatMap (·.2)

/-- The imports found for a file are other than its own path and its own imports, none is found twice, and the
claims on them are those of the file. -/
structure Surroundings.Resolves (s : Surroundings) (file : String) (classes : List Descriptor)
    (existing : List String) (claims : Claims) (found : ResolvedImports) (claims' : Claims) : Prop where
  names : found.byClass.map (·.1) = classes.map (·.name)
  entries : found.entries = found.scripts.flatMap s.entriesOf
  distinct : found.scripts.Nodup
  foreign : file ∉ found.scripts
  added : ∀ path ∈ found.scripts, path ∉ existing
  granted : claims.Granted claims' file found.scripts

theorem Surroundings.resolveFile_resolves (s : Surroundings) (file : String) (classes : List Descriptor)
    (existing : List String) (claims : Claims) :
    s.Resolves file classes existing claims (s.resolveFile file classes existing claims).1
      (s.resolveFile file classes existing claims).2 := by
  let start := Walk.start file existing (classes.map (·.name)) (some claims)
  obtain ⟨own, names, grown, lists⟩ := Walk.visitOwns_grows s classes start
  have byClass : (s.resolveFile file classes existing claims).1.byClass = own := by
    simp only [resolveFile, Walk.result]
    rw [lists]
    simp [start, Walk.start]
  have scripts : (s.resolveFile file classes existing claims).1.scripts = own.flatMap (·.2) := by
    rw [ResolvedImports.scripts, byClass]
  obtain ⟨claims', after, granted⟩ := grown.claims claims rfl
  refine ⟨by rw [byClass, names], ?_, ?_, ?_, ?_, ?_⟩
  next =>
    rw [scripts]
    exact grown.entries
  next =>
    rw [scripts]
    exact grown.distinct
  next =>
    rw [scripts]
    exact grown.foreign
  next =>
    rw [scripts]
    intro path member given
    have unmet := grown.unmet path member
    have met : start.emitted.contains path = true := (Table.contains_marks existing path).mpr given
    rw [unmet] at met
    cases met
  next =>
    rw [scripts]
    have last : (s.resolveFile file classes existing claims).2 = claims' := by
      simp only [resolveFile]
      rw [after]
      rfl
    rw [last]
    exact granted

theorem Surroundings.Resolves.script_entries {s : Surroundings} {file : String} {classes : List Descriptor}
    {existing : List String} {claims claims' : Claims} {found : ResolvedImports}
    (resolves : s.Resolves file classes existing claims found claims') :
    found.entries.filterMap ImportEntry.script? = found.scripts := by
  rw [resolves.entries, List.filterMap_flatMap]
  simp [Surroundings.script_entriesOf]

end ClassLinker
