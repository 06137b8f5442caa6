import ClassLinker.Proofs.Walk

set_option autoImplicit false

namespace ClassLinker

theorem Claims.claim_again (c : Claims) (file path other : String) :
    ((c.claim path file).2.claim other file).1 = (c.claim other file).1 := by
  unfold claim
  cases policy : c.policy with
  | file => simp [policy]
  | global =>
    simp only
    cases found : c.owners[path]? with
    | some owner => simp [policy]
    | none =>
      by_cases same : path = other
      next => simp [← same, found]
      next => cases taken : c.owners[other]? <;> simp [same, taken]

theorem Claims.claim_iff {c : Claims} (once : c.policy = .global) (path file : String) :
    (c.claim path file).1 = true ↔ ∀ other, c.owner? path = some other → other = file := by
  unfold claim owner?
  rw [once]
  cases found : c.owners[path]? with
  | none => simp
  | some owner => simp

namespace Walk

def grants (claims : Option Claims) (file path : String) : Bool := claims.all fun c => (c.claim path file).1

theorem fst_claim (w : Walk) (path : String) : (w.claim path).1 = grants w.claims w.owner path := by
  unfold claim grants
  cases w.claims <;> rfl

theorem grants_claim (w : Walk) (path other : String) :
    grants (w.claim path).2.claims w.owner other = grants w.claims w.owner other := by
  unfold claim grants
  cases present : w.claims with
  | none => simp [present]
  | some c => exact c.claim_again w.owner path other

theorem claim_visited (w : Walk) (path : String) :
    (w.claim path).2.visited = w.visited ∧ (w.claim path).2.missing = w.missing ∧
      (w.claim path).2.diagnostics = w.diagnostics := by
  unfold claim
  cases w.claims <;> exact ⟨rfl, rfl, rfl⟩

def kept (allowed : String → Bool) (byClass : List (String × List String)) : List (String × List String) :=
  byClass.map fun entry => (entry.1, entry.2.filter allowed)

theorem kept_credited (allowed : String → Bool) (byClass : List (String × List String)) (path : String) :
    kept allowed (credited byClass [path]) =
      if allowed path then credited (kept allowed byClass) [path] else kept allowed byClass := by
  cases byClass with
  | nil => simp [kept, credited]
  | cons entry rest =>
    cases granted : allowed path with
    | true => simp [kept, credited, granted]
    | false => simp [kept, credited, granted]

/-- Two walks at the same place: `full` imports whatever it meets, and `part` only the paths that are allowed. -/
structure Beside (allowed : String → Bool) (part full : Walk) : Prop where
  owner : part.owner = full.owner
  emitted : part.emitted = full.emitted
  visited : part.visited = full.visited
  missing : part.missing = full.missing
  diagnostics : part.diagnostics = full.diagnostics
  byClass : part.byClass = kept allowed full.byClass
  granted : ∀ path, grants part.claims full.owner path = allowed path
  unbound : ∀ path, grants full.claims full.owner path = true

section
variable {allowed : String → Bool} {part full : Walk} (beside : Beside allowed part full)
include beside

theorem Beside.marks : part.marks = full.marks := by
  unfold Walk.marks
  rw [beside.owner, beside.emitted]

theorem Beside.markEmitted (path : String) : Beside allowed (part.markEmitted path) (full.markEmitted path) :=
  ⟨beside.owner, by simp only [Walk.markEmitted, beside.emitted], beside.visited, beside.missing,
    beside.diagnostics, beside.byClass, beside.granted, beside.unbound⟩

theorem Beside.markVisited (name : String) : Beside allowed (part.markVisited name) (full.markVisited name) :=
  ⟨beside.owner, beside.emitted, by simp only [Walk.markVisited, beside.visited], beside.missing,
    beside.diagnostics, beside.byClass, beside.granted, beside.unbound⟩

theorem Beside.addMissing (className reference namespaceName : String) :
    Beside allowed (part.addMissing className reference namespaceName)
      (full.addMissing className reference namespaceName) :=
  ⟨beside.owner, beside.emitted, beside.visited,
    by simp only [Walk.addMissing, Walk.addFinding, beside.missing],
    by simp only [Walk.addMissing, Walk.addFinding, Walk.unmappedFinding, beside.diagnostics, beside.owner],
    beside.byClass, beside.granted, beside.unbound⟩

theorem Beside.addCycle (problem : Problem) : Beside allowed (part.addCycle problem) (full.addCycle problem) := by
  unfold Walk.addCycle
  simp only [beside.owner, beside.diagnostics]
  split
  next => exact beside
  next =>
    exact ⟨beside.owner, beside.emitted, beside.visited, beside.missing,
      by simp only [Walk.addFinding, beside.diagnostics], beside.byClass, beside.granted, beside.unbound⟩

theorem Beside.import (s : Surroundings) (path : String) :
    Beside allowed (importPath s part path) (importPath s full path) := by
  obtain ⟨owner, _, byClass, emitted⟩ := claim_fields part path
  obtain ⟨owner', _, byClass', emitted'⟩ := claim_fields full path
  obtain ⟨visited, missing, diagnostics⟩ := claim_visited part path
  obtain ⟨visited', missing', diagnostics'⟩ := claim_visited full path
  have still (other : String) : grants (part.claim path).2.claims (full.claim path).2.owner other = allowed other := by
    rw [owner', ← beside.owner, grants_claim, beside.owner, beside.granted]
  have still' (other : String) : grants (full.claim path).2.claims (full.claim path).2.owner other = true := by
    rw [owner', grants_claim, beside.unbound]
  -- what both sides share, whether the path is imported or not
  have claimed : Beside allowed (part.claim path).2 (full.claim path).2 :=
    ⟨by rw [owner, owner', beside.owner], by rw [emitted, emitted', beside.emitted],
      by rw [visited, visited', beside.visited], by rw [missing, missing', beside.missing],
      by rw [diagnostics, diagnostics', beside.diagnostics], by rw [byClass, byClass', beside.byClass], still, still'⟩
  have credit := kept_credited allowed full.byClass path
  have added (w : Walk) : (w.addScript path (s.assetsOf path)).byClass = credited w.byClass [path] := rfl
  rw [importPath, importPath, fst_claim, fst_claim, beside.unbound, beside.owner, beside.granted, if_pos rfl]
  cases granted : allowed path with
  | true =>
    rw [granted, if_pos rfl] at credit
    rw [if_pos rfl]
    refine ⟨claimed.owner, claimed.emitted, claimed.visited, claimed.missing, claimed.diagnostics, ?_, still, still'⟩
    rw [added, added, byClass, byClass', credit, beside.byClass]
  | false =>
    rw [granted, if_neg Bool.false_ne_true] at credit
    rw [if_neg Bool.false_ne_true]
    refine ⟨claimed.owner, claimed.emitted, claimed.visited, claimed.missing, claimed.diagnostics, ?_, still, still'⟩
    rw [added, byClass, byClass', credit, beside.byClass]

end

theorem Beside.foldl {allowed : String → Bool} {α : Type} {f : Walk → α → Walk}
    (each : ∀ part full x, Beside allowed part full → Beside allowed (f part x) (f full x)) (xs : List α)
    {part full : Walk} (beside : Beside allowed part full) : Beside allowed (xs.foldl f part) (xs.foldl f full) := by
  induction xs generalizing part full with
  | nil => exact beside
  | cons x rest ih => exact ih (each part full x beside)

theorem Beside.emit {allowed : String → Bool} {s : Surroundings} {visit : Descriptor → Walk → Walk}
    (visited : ∀ d part full, Beside allowed part full → Beside allowed (visit d part) (visit d full))
    {part full : Walk} (beside : Beside allowed part full) (path : String) :
    Beside allowed (emit s visit part path) (emit s visit full path) := by
  by_cases met : path ∈ full.marks
  next =>
    rw [emit_met met, emit_met (beside.marks ▸ met)]
    exact beside
  next =>
    rw [emit_unmet met, emit_unmet (beside.marks ▸ met)]
    refine Beside.import (Beside.foldl ?_ (s.registry.classesIn path) (beside.markEmitted path)) s path
    intro part full d beside
    unfold followOnce
    rw [beside.visited]
    split
    next => exact beside
    next => exact visited d _ _ (beside.markVisited d.name)

theorem Beside.visit {allowed : String → Bool} (s : Surroundings) (n : Nat) (direct : Bool) (d : Descriptor)
    {part full : Walk} (beside : Beside allowed part full) :
    Beside allowed (visit s n direct d part) (visit s n direct d full) := by
  induction n generalizing direct d part full with
  | zero => exact beside
  | succ n ih =>
    rw [visit_succ, visit_succ]
    refine Beside.foldl ?_ d.references beside
    intro part full reference beside
    unfold followReference
    cases s.lead reference with
    | paths found =>
      exact Beside.foldl (fun _ _ path beside => beside.emit (fun d _ _ => ih false d) path) found beside
    | disabled => exact beside
    | missing namespaceName =>
      cases direct with
      | true => exact beside.addMissing d.name reference namespaceName
      | false => exact beside
    | cycle problem => exact beside.addCycle problem

theorem Beside.visitOwn {allowed : String → Bool} (s : Surroundings) {part full : Walk}
    (beside : Beside allowed part full) (d : Descriptor) :
    Beside allowed (visitOwn s part d) (visitOwn s full d) := by
  apply Beside.visit
  exact ⟨beside.owner, beside.emitted, beside.visited, beside.missing, beside.diagnostics,
    by simp [beside.byClass, kept], beside.granted, beside.unbound⟩

end Walk

namespace Surroundings

def resolveAlone (s : Surroundings) (file : String) (classes : List Descriptor) (existing : List String) :
    ResolvedImports :=
  (s.resolveFile file classes existing (.ofPolicy .file)).1

theorem resolveFile_beside (s : Surroundings) (file : String) (classes : List Descriptor) (existing : List String)
    (claims : Claims) :
    let found := (s.resolveFile file classes existing claims).1
    let all := s.resolveAlone file classes existing
    found.byClass = Walk.kept (fun path => (claims.claim path file).1) all.byClass ∧
      found.missing = all.missing ∧ found.diagnostics = all.diagnostics := by
  let walk (claims : Claims) : Walk :=
    classes.foldl (Walk.visitOwn s) (Walk.start file existing (classes.map (·.name)) (some claims))
  have walks : Walk.Beside (fun path => (claims.claim path file).1) (walk claims) (walk (.ofPolicy .file)) := by
    refine Walk.Beside.foldl (fun _ _ d beside => beside.visitOwn s d) classes ?_
    exact ⟨rfl, rfl, rfl, rfl, rfl, rfl, fun _ => rfl, fun _ => rfl⟩
  refine ⟨?_, walks.missing, walks.diagnostics⟩
  change (walk claims).byClass.reverse = Walk.kept _ (walk (.ofPolicy .file)).byClass.reverse
  rw [walks.byClass, Walk.kept, Walk.kept, List.map_reverse]

theorem scripts_resolveFile (s : Surroundings) (file : String) (classes : List Descriptor) (existing : List String)
    (claims : Claims) :
    (s.resolveFile file classes existing claims).1.scripts =
      (s.resolveAlone file classes existing).scripts.filter fun path => (claims.claim path file).1 := by
  rw [ResolvedImports.scripts, (s.resolveFile_beside file classes existing claims).1, ResolvedImports.scripts,
    Walk.kept, List.flatMap_map, List.filter_flatMap]

end Surroundings

end ClassLinker
