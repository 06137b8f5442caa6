import ClassLinker.Proofs.Deduplication
import ClassLinker.Proofs.DepthFirst
import ClassLinker.Proofs.Registry

set_option autoImplicit false

namespace ClassLinker

def Lead.found : Lead → List String
  | .paths found => found
  | .disabled | .missing _ | .cycle _ => []

namespace Surroundings

def targets (s : Surroundings) (d : Descriptor) : List String :=
  d.references.flatMap fun reference => (s.lead reference).found

def targetsIn (s : Surroundings) (own : List String) (path : String) : List String :=
  ((s.registry.classesIn path).filter (·.name ∉ own)).flatMap s.targets

end Surroundings

namespace Walk

theorem marks_markEmitted (w : Walk) (path : String) : (w.markEmitted path).marks = insert path w.marks := by
  ext other
  simp only [mem_marks, markEmitted, Std.ExtTreeMap.contains_insert, Bool.or_eq_true, beq_iff_eq,
    Std.compare_eq_iff_eq, Set.mem_insert_iff]
  grind

theorem contains_markVisited (w : Walk) (name other : String) :
    (w.markVisited name).visited.contains other = true ↔ name = other ∨ w.visited.contains other = true := by
  simp [markVisited, Std.ExtTreeMap.contains_insert]

/-- From `w` the walk has come to `w'`. The classes that it has followed since are in paths that were not in `base`. -/
structure Advances (s : Surroundings) (base : Set String) (w w' : Walk) : Prop where
  owner : w'.owner = w.owner
  granted : ∀ path, grants w'.claims w.owner path = grants w.claims w.owner path
  marks : w.marks ⊆ w'.marks
  visited : ∀ name, w.visited.contains name = true → w'.visited.contains name = true
  recent : ∀ name, w'.visited.contains name = true → w.visited.contains name = true ∨
    ∃ d, s.registry.get? name = some d ∧ d.sourceFile ∉ base ∧ d.sourceFile ∈ w'.marks

theorem Advances.quiet {s : Surroundings} {base : Set String} {w w' : Walk} (owner : w'.owner = w.owner)
    (claims : w'.claims = w.claims) (emitted : w'.emitted = w.emitted) (visited : w'.visited = w.visited) :
    Advances s base w w' where
  owner := owner
  granted := by simp [claims]
  marks := by
    intro path met
    rwa [mem_marks, owner, emitted]
  visited := by simp [visited]
  recent := fun name followed => .inl (by rwa [visited] at followed)

theorem Advances.refl (s : Surroundings) (base : Set String) (w : Walk) : Advances s base w w :=
  .quiet rfl rfl rfl rfl

theorem Advances.trans {s : Surroundings} {base : Set String} {a b c : Walk} (first : Advances s base a b)
    (second : Advances s base b c) : Advances s base a c where
  owner := second.owner.trans first.owner
  granted := fun path => by rw [← first.granted, ← first.owner, second.granted, first.owner]
  marks := first.marks.trans second.marks
  visited := fun name followed => second.visited name (first.visited name followed)
  recent := by
    intro name followed
    rcases second.recent name followed with before | late
    next =>
      rcases first.recent name before with before | ⟨d, present, outside, inside⟩
      next => exact .inl before
      next => exact .inr ⟨d, present, outside, second.marks inside⟩
    next => exact .inr late

theorem Advances.foldl {s : Surroundings} {base held : Set String} {α : Type} {f : Walk → α → Walk} {xs : List α}
    (each : ∀ w, ∀ x ∈ xs, held ⊆ w.marks → Advances s base w (f w x)) {w : Walk} (kept : held ⊆ w.marks) :
    Advances s base w (xs.foldl f w) := by
  induction xs generalizing w with
  | nil => exact Advances.refl s base w
  | cons x rest ih =>
    have first := each w x (List.mem_cons_self ..) kept
    exact first.trans (ih (fun w x later => each w x (List.mem_cons_of_mem _ later)) (kept.trans first.marks))

theorem advances_addCycle (s : Surroundings) (base : Set String) (w : Walk) (problem : Problem) :
    Advances s base w (w.addCycle problem) := by
  unfold addCycle
  simp only
  split
  next => exact Advances.refl s base w
  next => exact .quiet rfl rfl rfl rfl

theorem advances_markEmitted (s : Surroundings) (base : Set String) (w : Walk) (path : String) :
    Advances s base w (w.markEmitted path) := by
  refine ⟨rfl, fun _ => rfl, ?_, fun _ => id, fun _ => .inl⟩
  rw [marks_markEmitted]
  exact Set.subset_insert ..

theorem advances_importPath (s : Surroundings) (base : Set String) (w : Walk) (path : String) :
    Advances s base w (importPath s w path) := by
  obtain ⟨owner, _, _, emitted⟩ := claim_fields w path
  obtain ⟨visited, _, _⟩ := claim_visited w path
  have asked : Advances s base w (w.claim path).2 := by
    refine ⟨owner, grants_claim w path, ?_, by simp [visited], fun name followed => .inl ?_⟩
    next =>
      intro other met
      rwa [mem_marks, owner, emitted]
    next => rwa [visited] at followed
  unfold importPath
  split
  next => exact asked.trans (.quiet rfl rfl rfl rfl)
  next => exact asked

section
variable {s : Surroundings} (coherent : s.registry.Coherent)
include coherent

-- A class that is noted is in the path that is being entered, which was not in `base`.
theorem advances_markVisited {base : Set String} {path : String} {d : Descriptor}
    (member : d ∈ s.registry.classesIn path) (outside : path ∉ base) {w : Walk} (marked : path ∈ w.marks) :
    Advances s base w (w.markVisited d.name) := by
  obtain ⟨present, source⟩ := coherent.mem_classesIn.mp member
  refine ⟨rfl, fun _ => rfl, fun _ => id, ?_, ?_⟩
  next => exact fun name before => (contains_markVisited w d.name name).mpr (.inr before)
  next =>
    intro name followed
    rcases (contains_markVisited w d.name name).mp followed with rfl | before
    next => exact .inr ⟨d, present, source ▸ outside, source ▸ marked⟩
    next => exact .inl before

theorem advances_classes {base : Set String} {visit : Descriptor → Walk → Walk}
    (visits : ∀ d w, base ⊆ w.marks → Advances s base w (visit d w)) {path : String} (outside : path ∉ base)
    {w : Walk} (kept : insert path base ⊆ w.marks) :
    Advances s base w ((s.registry.classesIn path).foldl (followOnce visit) w) := by
  refine Advances.foldl ?_ kept
  intro w d member kept
  unfold followOnce
  split
  next => exact Advances.refl s base w
  next =>
    have noted := advances_markVisited coherent member outside (kept (.inl rfl))
    exact noted.trans (visits d _ ((Set.subset_insert ..).trans kept))

theorem advances_emit {base : Set String} {visit : Descriptor → Walk → Walk}
    (visits : ∀ d w, base ⊆ w.marks → Advances s base w (visit d w)) {w : Walk} (kept : base ⊆ w.marks)
    (path : String) : Advances s base w (emit s visit w path) := by
  by_cases met : path ∈ w.marks
  next =>
    rw [emit_met met]
    exact Advances.refl s base w
  next =>
    -- from here on `path` is marked, but it stays outside `base`
    have marked : insert path base ⊆ (w.markEmitted path).marks := by
      rw [marks_markEmitted]
      exact Set.insert_subset_insert kept
    rw [emit_unmet met]
    exact ((advances_markEmitted s base w path).trans
      (advances_classes coherent visits (fun inside => met (kept inside)) marked)).trans
      (advances_importPath s base _ path)

theorem advances_reference {base : Set String} {visit : Descriptor → Walk → Walk}
    (visits : ∀ d w, base ⊆ w.marks → Advances s base w (visit d w)) (direct : Bool) (d : Descriptor) {w : Walk}
    (kept : base ⊆ w.marks) (reference : String) :
    Advances s base w (followReference s visit direct d w reference) := by
  unfold followReference
  cases s.lead reference with
  | paths found => exact Advances.foldl (fun w path _ kept => advances_emit coherent visits kept path) kept
  | disabled => exact Advances.refl s base w
  | missing namespaceName =>
    cases direct with
    | true => exact .quiet rfl rfl rfl rfl
    | false => exact Advances.refl s base w
  | cycle problem => exact advances_addCycle s base w problem

theorem advances_visit {base : Set String} (n : Nat) (direct : Bool) (d : Descriptor) {w : Walk}
    (kept : base ⊆ w.marks) : Advances s base w (visit s n direct d w) := by
  induction n generalizing direct d w with
  | zero => exact Advances.refl s base w
  | succ n ih =>
    rw [visit_succ]
    exact Advances.foldl
      (fun w reference _ kept => advances_reference coherent (fun d _ => ih false d) direct d kept reference) kept

end

def unvisited (s : Surroundings) (w : Walk) : Nat :=
  s.registry.classes.keys.countP fun name => !w.visited.contains name

theorem unvisited_le_size (s : Surroundings) (w : Walk) : unvisited s w ≤ s.registry.size := by
  unfold unvisited Registry.size
  rw [← Std.ExtTreeMap.length_keys]
  exact List.countP_le_length

theorem Advances.unvisited_le {s : Surroundings} {base : Set String} {w w' : Walk} (advances : Advances s base w w') :
    unvisited s w' ≤ unvisited s w := by
  apply List.countP_mono_left
  intro name _ fresh
  rw [Bool.not_eq_true', ← Bool.not_eq_true] at fresh ⊢
  exact fun before => fresh (advances.visited name before)

theorem unvisited_markVisited {s : Surroundings} {w : Walk} {name : String} {d : Descriptor}
    (known : s.registry.get? name = some d) (fresh : w.visited.contains name = false) :
    unvisited s (w.markVisited name) < unvisited s w := by
  have listed : name ∈ s.registry.classes.keys := by
    rw [Std.ExtTreeMap.mem_keys, Std.ExtTreeMap.mem_iff_isSome_getElem?]
    exact Option.isSome_of_eq_some known
  -- the count over the same names, less this one
  have rest : unvisited s (w.markVisited name) =
      ((s.registry.classes.keys.filter fun other => !w.visited.contains other).filter (· ≠ name)).length := by
    unfold unvisited
    rw [List.countP_eq_length_filter, List.filter_filter]
    congr 2
    funext other
    have later := contains_markVisited w name other
    grind
  rw [rest, unvisited, List.countP_eq_length_filter, List.length_filter_lt_length_iff_exists]
  exact ⟨name, List.mem_filter.mpr ⟨listed, by simp [fresh]⟩, by simp⟩

structure Ready (s : Surroundings) (own : List String) (w : Walk) : Prop where
  unbound : ∀ path, grants w.claims w.owner path = true
  known : ∀ name ∈ own, w.visited.contains name = true
  placed : ∀ name, w.visited.contains name = true → name ∈ own ∨
    ∃ d, s.registry.get? name = some d ∧ d.sourceFile ∈ w.marks

theorem Ready.advance {s : Surroundings} {own : List String} {base : Set String} {w w' : Walk}
    (ready : Ready s own w) (advances : Advances s base w w') : Ready s own w' where
  unbound := fun path => by rw [advances.owner, advances.granted, ready.unbound]
  known := fun name mine => advances.visited name (ready.known name mine)
  placed := by
    intro name followed
    rcases advances.recent name followed with before | ⟨d, present, _, inside⟩
    next =>
      rcases ready.placed name before with mine | ⟨d, present, inside⟩
      next => exact .inl mine
      next => exact .inr ⟨d, present, advances.marks inside⟩
    next => exact .inr ⟨d, present, inside⟩

/-- On its way from `w` to `w'` the walk has searched the paths of `agenda` and has imported what it found. -/
structure Explores (s : Surroundings) (own agenda : List String) (w w' : Walk) (found : List String) : Prop where
  entries : w'.entries = w.entries ++ found.flatMap s.entriesOf
  search : DepthFirst.Search (s.targetsIn own) agenda w.marks found
  marks : w'.marks = w.marks ∪ {path | path ∈ found}

theorem Explores.quiet {s : Surroundings} {own : List String} {w w' : Walk} (entries : w'.entries = w.entries)
    (marks : w'.marks = w.marks) : Explores s own [] w w' [] where
  entries := by simp [entries]
  search := .done _
  marks := by simp [marks]

theorem Explores.trans {s : Surroundings} {own xs ys found others : List String} {a b c : Walk}
    (first : Explores s own xs a b found) (second : Explores s own ys b c others) :
    Explores s own (xs ++ ys) a c (found ++ others) where
  entries := by rw [second.entries, first.entries, List.flatMap_append, List.append_assoc]
  search := first.search.append (first.marks ▸ second.search)
  marks := by
    rw [second.marks, first.marks]
    ext path
    simp [or_assoc]

theorem Explores.foldl {s : Surroundings} {own : List String} {n : Nat} {α : Type} {f : Walk → α → Walk}
    {agenda : α → List String} (advances : ∀ w x, Advances s w.marks w (f w x))
    (each : ∀ w x, Ready s own w → unvisited s w ≤ n → ∃ found, Explores s own (agenda x) w (f w x) found)
    (xs : List α) {w : Walk} (ready : Ready s own w) (enough : unvisited s w ≤ n) :
    ∃ found, Explores s own (xs.flatMap agenda) w (xs.foldl f w) found := by
  induction xs generalizing w with
  | nil => exact ⟨[], .quiet rfl rfl⟩
  | cons x rest ih =>
    obtain ⟨found, first⟩ := each w x ready enough
    obtain ⟨others, second⟩ :=
      ih (ready.advance (advances w x)) ((advances w x).unvisited_le.trans enough)
    exact ⟨found ++ others, first.trans second⟩

theorem importPath_ready {s : Surroundings} {own : List String} {w : Walk} (ready : Ready s own w) (path : String) :
    (importPath s w path).entries = w.entries ++ s.entriesOf path ∧ (importPath s w path).marks = w.marks := by
  obtain ⟨owner, entries, _, emitted⟩ := claim_fields w path
  have granted : (w.claim path).1 = true := by rw [fst_claim, ready.unbound]
  rw [importPath, if_pos granted]
  refine ⟨by rw [addScript, entries, Surroundings.entriesOf], ?_⟩
  ext other
  simp [addScript, owner, emitted]

theorem marks_addCycle (w : Walk) (problem : Problem) :
    (w.addCycle problem).entries = w.entries ∧ (w.addCycle problem).marks = w.marks := by
  unfold addCycle
  simp only
  split <;> exact ⟨rfl, rfl⟩

section
variable {s : Surroundings} (coherent : s.registry.Coherent) {own : List String}
include coherent

theorem explores_classes {n : Nat} {visit : Descriptor → Walk → Walk}
    (advances : ∀ d w, Advances s w.marks w (visit d w))
    (each : ∀ d w, Ready s own w → unvisited s w < n → ∃ found, Explores s own (s.targets d) w (visit d w) found)
    {path : String} {classes : List Descriptor} (here : ∀ d ∈ classes, d ∈ s.registry.classesIn path)
    (distinct : (classes.map (·.name)).Nodup) {w : Walk} (ready : Ready s own w) (enough : unvisited s w ≤ n)
    (marked : path ∈ w.marks) (ahead : ∀ d ∈ classes, w.visited.contains d.name = true → d.name ∈ own) :
    ∃ found, Explores s own ((classes.filter (·.name ∉ own)).flatMap s.targets) w
      (classes.foldl (followOnce visit) w) found := by
  -- The classes of a path that has just been marked. None of those that are still to come was followed, apart from
  -- the walk's own.
  induction classes generalizing w with
  | nil => exact ⟨[], .quiet rfl rfl⟩
  | cons d rest ih =>
    rw [List.map_cons, List.nodup_cons] at distinct
    have later : ∀ e ∈ rest, e ∈ s.registry.classesIn path := fun e member => here e (List.mem_cons_of_mem _ member)
    have member := here d (List.mem_cons_self ..)
    rw [List.foldl_cons]
    cases followed : w.visited.contains d.name with
    | true =>
      -- only the walk's own classes are passed over
      have mine : d.name ∈ own := ahead d (List.mem_cons_self ..) followed
      rw [followOnce, if_pos followed, List.filter_cons_of_neg (by simpa using mine)]
      exact ih later distinct.2 ready enough marked fun e member => ahead e (List.mem_cons_of_mem _ member)
    | false =>
      have other : d.name ∉ own := by
        intro mine
        rw [ready.known d.name mine] at followed
        cases followed
      rw [followOnce, if_neg (by simp [followed]), List.filter_cons_of_pos (by simpa using other), List.flatMap_cons]
      -- the class is noted, then followed; neither follows another class of this path
      have noted : Ready s own (w.markVisited d.name) :=
        ready.advance (advances_markVisited coherent member (Set.notMem_empty path) marked)
      have less := (unvisited_markVisited (coherent.mem_classesIn.mp member).1 followed).trans_le enough
      have step := advances d (w.markVisited d.name)
      have stillAhead : ∀ e ∈ rest,
          (visit d (w.markVisited d.name)).visited.contains e.name = true → e.name ∈ own := by
        intro e member followed
        obtain ⟨known, there⟩ := coherent.mem_classesIn.mp (later e member)
        rcases step.recent e.name followed with before | ⟨e', known', outside, _⟩
        next =>
          rcases (contains_markVisited w d.name e.name).mp before with same | before
          next => exact absurd (same ▸ List.mem_map_of_mem member) distinct.1
          next => exact ahead e (List.mem_cons_of_mem _ member) before
        next =>
          rw [known] at known'
          cases known'
          exact absurd (there ▸ marked) outside
      obtain ⟨found, first⟩ := each d _ noted less
      obtain ⟨others, second⟩ :=
        ih later distinct.2 (noted.advance step) (step.unvisited_le.trans less.le) (step.marks marked) stillAhead
      exact ⟨found ++ others, Explores.trans ⟨first.entries, first.search, first.marks⟩ second⟩

theorem explores_emit {n : Nat} {visit : Descriptor → Walk → Walk}
    (advances : ∀ d w base, base ⊆ w.marks → Advances s base w (visit d w))
    (each : ∀ d w, Ready s own w → unvisited s w < n → ∃ found, Explores s own (s.targets d) w (visit d w) found)
    {w : Walk} (ready : Ready s own w) (enough : unvisited s w ≤ n) (path : String) :
    ∃ found, Explores s own [path] w (emit s visit w path) found := by
  by_cases met : path ∈ w.marks
  next =>
    rw [emit_met met]
    exact ⟨[], by simp, .skip met (.done _), by simp⟩
  next =>
    have entered := advances_markEmitted s w.marks w path
    have marks := marks_markEmitted w path
    have names := coherent.map_name_classesIn path ▸ coherent.distinct path
    -- a class of this path that was followed before must be one of the walk's own
    have ahead : ∀ d ∈ s.registry.classesIn path,
        (w.markEmitted path).visited.contains d.name = true → d.name ∈ own := by
      intro d member followed
      obtain ⟨present, source⟩ := coherent.mem_classesIn.mp member
      rcases ready.placed d.name followed with mine | ⟨d', present', inside⟩
      next => exact mine
      next =>
        rw [present] at present'
        cases present'
        exact absurd (source ▸ inside) met
    -- the search below the path, then the path itself
    obtain ⟨below, inner⟩ := explores_classes coherent (fun d w => advances d w w.marks subset_rfl) each (fun _ => id)
      names (ready.advance entered) (entered.unvisited_le.trans enough) (marks ▸ .inl rfl) ahead
    have between := entered.trans
      (advances_classes coherent (fun d w => advances d w _) met (marks ▸ subset_rfl))
    obtain ⟨entries, kept⟩ := importPath_ready (ready.advance between) path
    rw [emit_unmet met]
    refine ⟨below ++ [path], ?_, .enter met (marks ▸ inner.search) (.done _), ?_⟩
    next =>
      rw [entries, inner.entries, List.flatMap_append, List.flatMap_singleton, List.append_assoc]
      rfl
    next =>
      rw [kept, inner.marks, marks]
      ext other
      simp only [Set.mem_union, Set.mem_insert_iff, Set.mem_ofPred_eq, List.mem_append, List.mem_singleton]
      grind

theorem explores_reference {n : Nat} {visit : Descriptor → Walk → Walk}
    (advances : ∀ d w base, base ⊆ w.marks → Advances s base w (visit d w))
    (each : ∀ d w, Ready s own w → unvisited s w < n → ∃ found, Explores s own (s.targets d) w (visit d w) found)
    (direct : Bool) (d : Descriptor) {w : Walk} (ready : Ready s own w) (enough : unvisited s w ≤ n)
    (reference : String) :
    ∃ found, Explores s own (s.lead reference).found w (followReference s visit direct d w reference) found := by
  unfold followReference
  cases s.lead reference with
  | paths paths =>
    have all := Explores.foldl
      (fun w => advances_emit coherent (fun d w' => advances d w' w.marks) subset_rfl)
      (fun w path ready enough => explores_emit coherent advances each ready enough path) paths ready enough
    rwa [List.flatMap_singleton'] at all
  | disabled => exact ⟨[], .quiet rfl rfl⟩
  | missing namespaceName => cases direct <;> exact ⟨[], .quiet rfl rfl⟩
  | cycle problem => exact ⟨[], .quiet (marks_addCycle w problem).1 (marks_addCycle w problem).2⟩

theorem explores_visit (n : Nat) (direct : Bool) (d : Descriptor) {w : Walk} (ready : Ready s own w)
    (enough : unvisited s w < n) : ∃ found, Explores s own (s.targets d) w (visit s n direct d w) found := by
  -- With more steps left than classes to follow, a walk searches all that a class leads to.
  induction n generalizing direct d w with
  | zero => cases enough
  | succ n ih =>
    have advances (d : Descriptor) (w : Walk) (base : Set String) (kept : base ⊆ w.marks) :
        Advances s base w (visit s n false d w) := advances_visit coherent n false d kept
    rw [visit_succ]
    exact Explores.foldl
      (fun w => advances_reference coherent (fun d w' => advances d w' w.marks) direct d subset_rfl)
      (fun w reference ready enough =>
        explores_reference coherent advances (fun d w => ih false d) direct d ready enough reference)
      d.references ready (Nat.lt_succ_iff.mp enough)

theorem explores_visitOwn (d : Descriptor) {w : Walk} (ready : Ready s own w) :
    ∃ found, Explores s own (s.targets d) w (visitOwn s w d) found := by
  have fresh : Ready s own { w with byClass := (d.name, []) :: w.byClass } :=
    ⟨ready.unbound, ready.known, ready.placed⟩
  obtain ⟨found, explores⟩ :=
    explores_visit coherent (s.registry.size + 1) true d fresh (Nat.lt_succ_of_le (unvisited_le_size s _))
  exact ⟨found, explores.entries, explores.search, explores.marks⟩

theorem advances_visitOwn (d : Descriptor) (w : Walk) : Advances s w.marks w (visitOwn s w d) := by
  have noted : Advances s w.marks w { w with byClass := (d.name, []) :: w.byClass } := .quiet rfl rfl rfl rfl
  exact noted.trans (advances_visit coherent (s.registry.size + 1) true d subset_rfl)

end

theorem marks_start (owner : String) (emitted visited : List String) (claims : Option Claims) :
    (start owner emitted visited claims).marks = {path | path = owner ∨ path ∈ emitted} := by
  ext path
  exact or_congr Iff.rfl (Table.contains_marks emitted path)

theorem ready_start (s : Surroundings) {owner : String} (emitted own : List String) {claims : Option Claims}
    (unbound : ∀ path, grants claims owner path = true) : Ready s own (start owner emitted own claims) where
  unbound := unbound
  known := fun name mine => (Table.contains_marks own name).mpr mine
  placed := fun name followed => .inl ((Table.contains_marks own name).mp followed)

theorem Explores.scripts {s : Surroundings} {own agenda found : List String} {w w' : Walk}
    (explores : Explores s own agenda w w' found) (first : w.entries = []) :
    w'.entries.filterMap ImportEntry.script? = found := by
  rw [explores.entries, first, List.nil_append, List.filterMap_flatMap]
  simp [Surroundings.script_entriesOf]

end Walk

namespace Surroundings

variable {s : Surroundings} (coherent : s.registry.Coherent)
include coherent

theorem search_resolveFile (file : String) (classes : List Descriptor) (existing : List String) (claims : Claims)
    (shared : claims.policy = .file) :
    DepthFirst.Search (s.targetsIn (classes.map (·.name))) (classes.flatMap s.targets)
      {path | path = file ∨ path ∈ existing}
      ((s.resolveFile file classes existing claims).1.entries.filterMap ImportEntry.script?) := by
  have unbound (path : String) : Walk.grants (some claims) file path = true := by
    simp [Walk.grants, Claims.claim, shared]
  have ready := Walk.ready_start s existing (classes.map (·.name)) unbound
  obtain ⟨found, explores⟩ := Walk.Explores.foldl (fun w d => Walk.advances_visitOwn coherent d w)
    (fun w d ready _ => Walk.explores_visitOwn coherent d ready) classes ready (Walk.unvisited_le_size s _)
  have scripts : (s.resolveFile file classes existing claims).1.entries.filterMap ImportEntry.script? = found :=
    explores.scripts rfl
  rw [scripts, ← Walk.marks_start file existing (classes.map (·.name)) (some claims)]
  exact explores.search

theorem search_closure (d : Descriptor) :
    DepthFirst.Search (s.targetsIn [d.name]) (s.targets d) {d.sourceFile} (s.closure d) := by
  have unbound (path : String) : Walk.grants none d.sourceFile path = true := rfl
  obtain ⟨found, explores⟩ := Walk.explores_visit coherent (s.registry.size + 1) true d
    (Walk.ready_start s [] [d.name] unbound) (Nat.lt_succ_of_le (Walk.unvisited_le_size s _))
  have scripts : s.closure d = found := explores.scripts rfl
  have barred : (Walk.start d.sourceFile [] [d.name] none).marks = {d.sourceFile} := by
    rw [Walk.marks_start]
    ext path
    simp
  rw [scripts, ← barred]
  exact explores.search

end Surroundings

end ClassLinker
