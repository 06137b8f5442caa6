import Mathlib.Logic.Relation
import ClassLinker.Proofs.WalkSearch

set_option autoImplicit false

/-!
The calls of a walk, step by step. Calls that have not returned are kept on a stack, and nothing but the marks of the
walk keeps them from being made for ever. They come to the same end as the walk, which is bounded by a number of steps.
-/

namespace ClassLinker.Walk

def noted (s : Surroundings) (direct : Bool) (d : Descriptor) (w : Walk) (reference : String) : Walk :=
  match s.lead reference with
  | .paths _ | .disabled => w
  | .missing namespaceName => if direct then w.addMissing d.name reference namespaceName else w
  | .cycle problem => w.addCycle problem

theorem followReference_eq (s : Surroundings) (visit : Descriptor → Walk → Walk) (direct : Bool) (d : Descriptor)
    (w : Walk) (reference : String) : followReference s visit direct d w reference =
      (s.lead reference).found.foldl (emit s visit) (noted s direct d w reference) := by
  unfold followReference noted
  cases s.lead reference <;> rfl

theorem noted_marks (s : Surroundings) (direct : Bool) (d : Descriptor) (w : Walk) (reference : String) :
    (noted s direct d w reference).marks = w.marks ∧ (noted s direct d w reference).visited = w.visited := by
  unfold noted
  cases s.lead reference with
  | paths | disabled => exact ⟨rfl, rfl⟩
  | missing => cases direct <;> exact ⟨rfl, rfl⟩
  | cycle problem =>
    unfold addCycle
    simp only
    split <;> exact ⟨rfl, rfl⟩

theorem importPath_marks (s : Surroundings) (w : Walk) (path : String) :
    (importPath s w path).marks = w.marks ∧ (importPath s w path).visited = w.visited := by
  obtain ⟨owner, _, _, emitted⟩ := claim_fields w path
  have asked : (w.claim path).2.marks = w.marks := by rw [marks, owner, emitted, marks]
  unfold importPath
  split <;> exact ⟨asked, (claim_visited w path).1⟩

theorem unvisited_congr (s : Surroundings) {w w' : Walk} (same : w'.visited = w.visited) :
    unvisited s w' = unvisited s w := by
  rw [unvisited, same, unvisited]

inductive Call where
  | visit (direct : Bool) (d : Descriptor) (paths references : List String)
  | emit (path : String) (classes : List Descriptor)
  | own (classes : List Descriptor)

structure Course where
  calls : List Call
  walk : Walk
  expanded : List String
  entered : List String

inductive Step (s : Surroundings) : Course → Course → Prop where
  | pass {direct d path paths references rest} {w : Walk} {expanded entered} (met : path ∈ w.marks) :
    Step s ⟨.visit direct d (path :: paths) references :: rest, w, expanded, entered⟩
      ⟨.visit direct d paths references :: rest, w, expanded, entered⟩
  | enter {direct d path paths references rest} {w : Walk} {expanded entered} (unmet : path ∉ w.marks) :
    Step s ⟨.visit direct d (path :: paths) references :: rest, w, expanded, entered⟩
      ⟨.emit path (s.registry.classesIn path) :: .visit direct d paths references :: rest, w.markEmitted path, expanded,
        path :: entered⟩
  | refer {direct d reference references rest w expanded entered} :
    Step s ⟨.visit direct d [] (reference :: references) :: rest, w, expanded, entered⟩
      ⟨.visit direct d (s.lead reference).found references :: rest, noted s direct d w reference, expanded, entered⟩
  | leaveClass {direct d rest w expanded entered} :
    Step s ⟨.visit direct d [] [] :: rest, w, expanded, entered⟩ ⟨rest, w, expanded, entered⟩
  | skip {path classes rest} {d : Descriptor} {w : Walk} {expanded entered}
    (followed : w.visited.contains d.name = true) :
    Step s ⟨.emit path (d :: classes) :: rest, w, expanded, entered⟩ ⟨.emit path classes :: rest, w, expanded, entered⟩
  | expand {path classes rest} {d : Descriptor} {w : Walk} {expanded entered}
    (fresh : w.visited.contains d.name = false) :
    Step s ⟨.emit path (d :: classes) :: rest, w, expanded, entered⟩
      ⟨.visit false d [] d.references :: .emit path classes :: rest, w.markVisited d.name, d.name :: expanded, entered⟩
  | leavePath {path rest w expanded entered} :
    Step s ⟨.emit path [] :: rest, w, expanded, entered⟩ ⟨rest, importPath s w path, expanded, entered⟩
  | expandOwn {classes rest} {d : Descriptor} {w : Walk} {expanded entered} :
    Step s ⟨.own (d :: classes) :: rest, w, expanded, entered⟩
      ⟨.visit true d [] d.references :: .own classes :: rest, { w with byClass := (d.name, []) :: w.byClass },
        d.name :: expanded, entered⟩
  | leaveFile {rest w expanded entered} :
    Step s ⟨.own [] :: rest, w, expanded, entered⟩ ⟨rest, w, expanded, entered⟩

abbrev Runs (s : Surroundings) : Course → Course → Prop := Relation.ReflTransGen (Step s)

theorem Step.unique {s : Surroundings} {c a b : Course} (first : Step s c a) (second : Step s c b) : a = b := by
  cases first with
  | pass met =>
    cases second with
    | pass => rfl
    | enter unmet => exact absurd met unmet
  | enter unmet =>
    cases second with
    | pass met => exact absurd met unmet
    | enter => rfl
  | skip followed =>
    cases second with
    | skip => rfl
    | expand fresh => cases followed.symm.trans fresh
  | expand fresh =>
    cases second with
    | skip followed => cases followed.symm.trans fresh
    | expand => rfl
  | refer | leaveClass | leavePath | expandOwn | leaveFile =>
    cases second
    rfl

theorem exists_step_iff {s : Surroundings} {c : Course} : (∃ c', Step s c c') ↔ c.calls ≠ [] := by
  constructor
  next =>
    rintro ⟨c', step⟩
    cases step <;> exact List.cons_ne_nil _ _
  next =>
    obtain ⟨calls, w, expanded, entered⟩ := c
    intro pending
    obtain ⟨call, rest, rfl⟩ := List.exists_cons_of_ne_nil pending
    match call with
    | .visit direct d (path :: paths) references =>
      by_cases met : path ∈ w.marks
      next => exact ⟨_, .pass met⟩
      next => exact ⟨_, .enter met⟩
    | .visit direct d [] (reference :: references) => exact ⟨_, .refer⟩
    | .visit direct d [] [] => exact ⟨_, .leaveClass⟩
    | .emit path (d :: classes) =>
      cases followed : w.visited.contains d.name with
      | true => exact ⟨_, .skip followed⟩
      | false => exact ⟨_, .expand followed⟩
    | .emit path [] => exact ⟨_, .leavePath⟩
    | .own (d :: classes) => exact ⟨_, .expandOwn⟩
    | .own [] => exact ⟨_, .leaveFile⟩

theorem Runs.to_end {s : Surroundings} {start c last : Course} (all : Runs s start last) (done : last.calls = [])
    (part : Runs s start c) : Runs s c last := by
  -- There is one way to the end.
  have unique : Relator.RightUnique (Step s) := fun _ _ _ => Step.unique
  rcases all.total_of_right_unique unique part with more | rest
  next =>
    rcases more.cases_head with rfl | ⟨next, step, _⟩
    next => exact .refl
    next => exact absurd done (exists_step_iff.mp ⟨next, step⟩)
  next => exact rest

/-- A call that is made in the walk `w` returns in the walk `w'`. -/
def Returns (s : Surroundings) (call : Call) (w w' : Walk) : Prop :=
  ∀ rest expanded entered, ∃ expanded' entered',
    Runs s ⟨call :: rest, w, expanded, entered⟩ ⟨rest, w', expanded', entered'⟩

section
variable {s : Surroundings} {call : Call} {w between w' : Walk}

theorem Returns.of_step {after : Call}
    (step : ∀ {rest expanded entered},
      Step s ⟨call :: rest, w, expanded, entered⟩ ⟨after :: rest, between, expanded, entered⟩)
    (returns : Returns s after between w') : Returns s call w w' := by
  intro rest expanded entered
  obtain ⟨expanded', entered', run⟩ := returns rest expanded entered
  exact ⟨expanded', entered', .head step run⟩

theorem Returns.of_call {inner outer : Call} {middle : Walk}
    (step : ∀ {rest expanded entered}, ∃ expanded' entered',
      Step s ⟨call :: rest, w, expanded, entered⟩ ⟨inner :: outer :: rest, between, expanded', entered'⟩)
    (first : Returns s inner between middle) (second : Returns s outer middle w') : Returns s call w w' := by
  intro rest expanded entered
  obtain ⟨expanded₁, entered₁, called⟩ := @step rest expanded entered
  obtain ⟨expanded₂, entered₂, inside⟩ := first (outer :: rest) expanded₁ entered₁
  obtain ⟨expanded₃, entered₃, outside⟩ := second rest expanded₂ entered₂
  exact ⟨expanded₃, entered₃, (Relation.ReflTransGen.head called inside).trans outside⟩

theorem Returns.of_last
    (step : ∀ {rest expanded entered}, Step s ⟨call :: rest, w, expanded, entered⟩ ⟨rest, w', expanded, entered⟩) :
    Returns s call w w' :=
  fun _ expanded entered => ⟨expanded, entered, .single step⟩

end

section
variable {s : Surroundings} (coherent : s.registry.Coherent) {n : Nat}
  (each : ∀ d w, unvisited s w < n → Returns s (.visit false d [] d.references) w (visit s n false d w))
include coherent each

theorem returns_emit (path : String) {classes : List Descriptor}
    (known : ∀ d ∈ classes, s.registry.get? d.name = some d) {w : Walk} (enough : unvisited s w ≤ n) :
    Returns s (.emit path classes) w (importPath s (classes.foldl (followOnce (visit s n false)) w) path) := by
  induction classes generalizing w with
  | nil => exact .of_last .leavePath
  | cons d classes ih =>
    obtain ⟨present, others⟩ := List.forall_mem_cons.mp known
    rw [List.foldl_cons]
    cases followed : w.visited.contains d.name with
    | true =>
      rw [followOnce, if_pos followed]
      exact .of_step (.skip followed) (ih others enough)
    | false =>
      rw [followOnce, if_neg (by simp [followed])]
      have less := (unvisited_markVisited present followed).trans_le enough
      have advances := advances_visit coherent n false d (Set.empty_subset (w.markVisited d.name).marks)
      exact .of_call ⟨_, _, .expand followed⟩ (each d _ less) (ih others (advances.unvisited_le.trans less.le))

theorem returns_paths {direct : Bool} {d : Descriptor} {references : List String}
    (after : ∀ w, unvisited s w ≤ n → Returns s (.visit direct d [] references) w
      (references.foldl (followReference s (visit s n false) direct d) w))
    (paths : List String) {w : Walk} (enough : unvisited s w ≤ n) :
    Returns s (.visit direct d paths references) w
      (references.foldl (followReference s (visit s n false) direct d) (paths.foldl (emit s (visit s n false)) w)) := by
  induction paths generalizing w with
  | nil => exact after w enough
  | cons path paths ih =>
    rw [List.foldl_cons]
    by_cases met : path ∈ w.marks
    next =>
      rw [emit_met met]
      exact .of_step (.pass met) (ih enough)
    next =>
      have advances := advances_emit coherent (fun d w => advances_visit coherent n false d)
        (Set.empty_subset w.marks) path
      have less := advances.unvisited_le.trans enough
      rw [emit_unmet met] at less ⊢
      have known : ∀ d ∈ s.registry.classesIn path, s.registry.get? d.name = some d :=
        fun d member => (coherent.mem_classesIn.mp member).1
      exact .of_call ⟨_, _, .enter met⟩ (returns_emit coherent each path known enough) (ih less)

theorem returns_references (direct : Bool) (d : Descriptor) (paths references : List String) {w : Walk}
    (enough : unvisited s w ≤ n) :
    Returns s (.visit direct d paths references) w
      (references.foldl (followReference s (visit s n false) direct d) (paths.foldl (emit s (visit s n false)) w)) := by
  induction references generalizing paths w with
  | nil => exact returns_paths coherent each (fun w _ => .of_last .leaveClass) paths enough
  | cons reference references ih =>
    refine returns_paths coherent each (fun w enough => ?_) paths enough
    have same := unvisited_congr s (noted_marks s direct d w reference).2
    rw [List.foldl_cons, followReference_eq]
    exact .of_step .refer (ih (s.lead reference).found (same.trans_le enough))

end

section
variable {s : Surroundings} (coherent : s.registry.Coherent)
include coherent

theorem returns_visit (n : Nat) (direct : Bool) (d : Descriptor) {w : Walk} (enough : unvisited s w < n) :
    Returns s (.visit direct d [] d.references) w (visit s n direct d w) := by
  induction n generalizing direct d w with
  | zero => cases enough
  | succ n ih =>
    rw [visit_succ]
    exact returns_references coherent (fun d _ => ih false d) direct d [] d.references (Nat.lt_succ_iff.mp enough)

theorem returns_own (classes : List Descriptor) (w : Walk) :
    Returns s (.own classes) w (classes.foldl (visitOwn s) w) := by
  induction classes generalizing w with
  | nil => exact .of_last .leaveFile
  | cons d classes ih =>
    exact .of_call ⟨_, _, .expandOwn⟩
      (returns_visit coherent (s.registry.size + 1) true d (Nat.lt_succ_of_le (unvisited_le_size s _))) (ih _)

end

end ClassLinker.Walk
