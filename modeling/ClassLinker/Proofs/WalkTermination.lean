import ClassLinker.Proofs.RegistryLog
import ClassLinker.Proofs.WalkCalls

set_option autoImplicit false

/-!
The calls of a walk come to an end, whatever circles the references make. A class is expanded once and a path is entered
once, and the calls that are open at one time are for different classes.
-/

namespace ClassLinker

namespace Walk

variable {s : Surroundings}

theorem acc_of_runs {start last : Course} (run : Runs s start last) (done : last.calls = []) :
    Acc (fun later earlier => Step s earlier later) start := by
  induction run using Relation.ReflTransGen.head_induction_on with
  | refl => exact ⟨_, fun next step => absurd done (exists_step_iff.mp ⟨next, step⟩)⟩
  | head step _ ih => exact ⟨_, fun next other => step.unique other ▸ ih⟩

def Call.due : Call → List String
  | .own classes => classes.map (·.name)
  | .visit .. | .emit .. => []

def Course.due (c : Course) : List String := c.expanded ++ c.calls.flatMap Call.due

/-- What was done is marked, so that it is not done again. -/
structure Once (c : Course) : Prop where
  classes : c.due.Nodup
  visited : ∀ name ∈ c.due, c.walk.visited.contains name = true
  paths : c.entered.Nodup
  marked : ∀ path ∈ c.entered, path ∈ c.walk.marks

theorem Once.quiet {c c' : Course} (once : Once c) (due : c'.due = c.due) (entered : c'.entered = c.entered)
    (marks : c'.walk.marks = c.walk.marks) (visited : c'.walk.visited = c.walk.visited) : Once c' where
  classes := due ▸ once.classes
  visited := by
    rw [due, visited]
    exact once.visited
  paths := entered ▸ once.paths
  marked := by
    rw [entered, marks]
    exact once.marked

theorem Once.step {c c' : Course} (once : Once c) (step : Step s c c') : Once c' := by
  cases step with
  | pass | leaveClass | skip | leaveFile => exact once.quiet rfl rfl rfl rfl
  | @refer direct d reference references rest w =>
    exact once.quiet rfl rfl (noted_marks s direct d w reference).1 (noted_marks s direct d w reference).2
  | @leavePath path rest w => exact once.quiet rfl rfl (importPath_marks s w path).1 (importPath_marks s w path).2
  | enter unmet =>
    refine ⟨once.classes, once.visited, List.nodup_cons.mpr ⟨fun before => unmet (once.marked _ before), once.paths⟩, ?_⟩
    rw [marks_markEmitted, List.forall_mem_cons]
    exact ⟨.inl rfl, fun path before => .inr (once.marked path before)⟩
  | @expand path classes rest d w expanded entered fresh =>
    -- all classes that were or will be expanded are marked, and this one is not
    have apart : d.name ∉ Course.due ⟨.emit path (d :: classes) :: rest, w, expanded, entered⟩ := by
      intro before
      cases fresh.symm.trans (once.visited d.name before)
    refine ⟨List.nodup_cons.mpr ⟨apart, once.classes⟩, ?_, once.paths, once.marked⟩
    refine List.forall_mem_cons.mpr ⟨(contains_markVisited w d.name d.name).mpr (.inl rfl), fun name before => ?_⟩
    exact (contains_markVisited w d.name name).mpr (.inr (once.visited name before))
  | @expandOwn classes rest d w expanded entered =>
    -- the class was still to be expanded, and now it was
    have moved : (expanded ++ d.name :: (classes.map (·.name) ++ rest.flatMap Call.due)).Perm
        (d.name :: (expanded ++ (classes.map (·.name) ++ rest.flatMap Call.due))) := List.perm_middle
    refine ⟨moved.nodup_iff.mp once.classes, fun name member => ?_, once.paths, once.marked⟩
    exact once.visited name (moved.mem_iff.mpr member)

inductive Nested : List Call → Prop where
  | none : Nested []
  | file (classes : List Descriptor) : Nested [.own classes]
  | outer {d paths references calls} (outermost : calls = [] ∨ ∃ classes, calls = [.own classes]) :
    Nested (.visit true d paths references :: calls)
  | path {path classes direct d paths references calls} (inside : Nested (.visit direct d paths references :: calls)) :
    Nested (.emit path classes :: .visit direct d paths references :: calls)
  | inner {d paths references path classes calls} (inside : Nested (.emit path classes :: calls)) :
    Nested (.visit false d paths references :: .emit path classes :: calls)

def Call.isVisit : Call → Bool
  | .visit .. => true
  | .emit .. | .own _ => false

def Call.isInnerVisit : Call → Bool
  | .visit direct .. => !direct
  | .emit .. | .own _ => false

def Call.isEmit : Call → Bool
  | .emit .. => true
  | .visit .. | .own _ => false

theorem Nested.visits_le {calls : List Call} (nested : Nested calls) :
    calls.countP Call.isVisit ≤ calls.countP Call.isInnerVisit + 1 := by
  induction nested with
  | none | file => simp [Call.isVisit]
  | outer outermost => rcases outermost with rfl | ⟨classes, rfl⟩ <;> simp [List.countP_cons, Call.isVisit]
  | path inside ih => simpa [List.countP_cons, Call.isVisit, Call.isInnerVisit] using ih
  | inner inside ih => simpa [List.countP_cons, Call.isVisit, Call.isInnerVisit] using ih

theorem Nested.emits_le {calls : List Call} (nested : Nested calls) :
    calls.countP Call.isEmit + (calls.take 1).countP Call.isVisit ≤ calls.countP Call.isVisit := by
  -- Every path that is entered is inside a class of its own; a class on top has no path inside yet.
  induction nested with
  | none | file => simp [Call.isVisit, Call.isEmit]
  | outer outermost => rcases outermost with rfl | ⟨classes, rfl⟩ <;> simp [List.countP_cons, Call.isVisit, Call.isEmit]
  | path inside ih => simpa [List.countP_cons, Call.isVisit, Call.isEmit] using ih
  | inner inside ih => simpa [List.countP_cons, Call.isVisit, Call.isEmit] using ih

theorem Nested.replace_visit {direct : Bool} {d : Descriptor} {paths references : List String} {calls : List Call}
    (nested : Nested (.visit direct d paths references :: calls)) (paths' references' : List String) :
    Nested (.visit direct d paths' references' :: calls) := by
  cases nested with
  | outer outermost => exact .outer outermost
  | inner inside => exact .inner inside

theorem Nested.replace_emit {path : String} {classes : List Descriptor} {calls : List Call}
    (nested : Nested (.emit path classes :: calls)) (classes' : List Descriptor) :
    Nested (.emit path classes' :: calls) := by
  cases nested with
  | path inside => exact .path inside

theorem Nested.step {c c' : Course} (nested : Nested c.calls) (step : Step s c c') : Nested c'.calls := by
  cases step with
  | pass | refer => exact nested.replace_visit _ _
  | enter => exact .path (nested.replace_visit _ _)
  | leaveClass =>
    cases nested with
    | outer outermost =>
      rcases outermost with rfl | ⟨classes, rfl⟩
      next => exact .none
      next => exact .file classes
    | inner inside => exact inside
  | skip => exact nested.replace_emit _
  | expand => exact .inner (nested.replace_emit _)
  | leavePath =>
    cases nested with
    | path inside => exact inside
  | expandOwn =>
    cases nested with
    | file => exact .outer (.inr ⟨_, rfl⟩)
  | leaveFile =>
    cases nested with
    | file => exact .none

def Call.Known (s : Surroundings) : Call → Prop
  | .emit _ classes => ∀ d ∈ classes, s.registry.get? d.name = some d
  | .visit .. | .own _ => True

theorem known_step (coherent : s.registry.Coherent) {c c' : Course} (known : ∀ call ∈ c.calls, call.Known s)
    (step : Step s c c') : ∀ call ∈ c'.calls, call.Known s := by
  cases step with
  | pass | refer =>
    simp only [List.forall_mem_cons] at known ⊢
    exact ⟨trivial, known.2⟩
  | expandOwn =>
    simp only [List.forall_mem_cons] at known ⊢
    exact ⟨trivial, trivial, known.2⟩
  | enter =>
    simp only [List.forall_mem_cons] at known ⊢
    exact ⟨fun d member => (coherent.mem_classesIn.mp member).1, trivial, known.2⟩
  | leaveClass | leavePath | leaveFile => exact (List.forall_mem_cons.mp known).2
  | skip =>
    simp only [List.forall_mem_cons] at known ⊢
    exact ⟨(List.forall_mem_cons.mp known.1).2, known.2⟩
  | expand =>
    simp only [List.forall_mem_cons] at known ⊢
    exact ⟨trivial, (List.forall_mem_cons.mp known.1).2, known.2⟩

def Course.room (s : Surroundings) (c : Course) : Nat := c.calls.countP Call.isInnerVisit + unvisited s c.walk

theorem room_step {c c' : Course} (known : ∀ call ∈ c.calls, call.Known s) (step : Step s c c') :
    c'.room s ≤ c.room s := by
  -- A class is marked before it is followed, so that it takes the place that it had among the others.
  cases step with
  | pass | enter | skip | expandOwn | leaveFile => exact le_rfl
  | @refer direct d reference references rest w =>
    exact (congrArg _ (unvisited_congr s (noted_marks s direct d w reference).2)).le
  | @leavePath path rest w => exact (congrArg _ (unvisited_congr s (importPath_marks s w path).2)).le
  | leaveClass => exact Nat.add_le_add_right (List.sublist_cons_self _ _).countP_le _
  | @expand path classes rest d w expanded entered fresh =>
    have present : s.registry.get? d.name = some d := known _ List.mem_cons_self d List.mem_cons_self
    have less := unvisited_markVisited present fresh
    simp only [Course.room, List.countP_cons, Call.isInnerVisit, Bool.not_false, if_true, Bool.false_eq_true, if_false]
    omega

structure Sound (s : Surroundings) (c : Course) : Prop where
  once : Once c
  nested : Nested c.calls
  known : ∀ call ∈ c.calls, call.Known s
  room : c.room s ≤ s.registry.size

theorem Sound.step (coherent : s.registry.Coherent) {c c' : Course} (sound : Sound s c) (step : Step s c c') :
    Sound s c' where
  once := sound.once.step step
  nested := sound.nested.step step
  known := known_step coherent sound.known step
  room := (room_step sound.known step).trans sound.room

theorem Sound.run (coherent : s.registry.Coherent) {c c' : Course} (sound : Sound s c) (run : Runs s c c') :
    Sound s c' := by
  induction run with
  | refl => exact sound
  | tail _ step ih => exact ih.step coherent step

theorem Sound.depth_le {c : Course} (sound : Sound s c) :
    c.calls.countP Call.isVisit ≤ s.registry.size + 1 ∧ c.calls.countP Call.isEmit ≤ s.registry.size + 1 := by
  have visits := sound.nested.visits_le
  have emits := sound.nested.emits_le
  have room := sound.room
  rw [Course.room] at room
  omega

namespace Course

def ofFile (file : String) (classes : List Descriptor) (existing : List String) (claims : Claims) : Course where
  calls := [.own classes]
  walk := Walk.start file existing (classes.map (·.name)) (some claims)
  expanded := []
  entered := []

def ofClass (d : Descriptor) : Course where
  calls := [.visit true d [] d.references]
  walk := Walk.start d.sourceFile [] [d.name] none
  expanded := [d.name]
  entered := []

end Course

theorem sound_ofFile (s : Surroundings) (file : String) {classes : List Descriptor}
    (distinct : (classes.map (·.name)).Nodup) (existing : List String) (claims : Claims) :
    Sound s (.ofFile file classes existing claims) where
  once := by
    have due : (Course.ofFile file classes existing claims).due = classes.map (·.name) := List.append_nil _
    refine ⟨due ▸ distinct, ?_, .nil, fun _ none => by cases none⟩
    rw [due]
    exact fun name member => (Table.contains_marks _ name).mpr member
  nested := .file classes
  known := by
    intro call member
    cases List.mem_singleton.mp member
    trivial
  room := by
    simpa [Course.room, Course.ofFile, Call.isInnerVisit] using unvisited_le_size s _

theorem sound_ofClass (s : Surroundings) (d : Descriptor) : Sound s (.ofClass d) where
  once := by
    refine ⟨List.nodup_singleton _, ?_, .nil, fun _ none => by cases none⟩
    exact fun name member => (Table.contains_marks _ name).mpr member
  nested := .outer (.inl rfl)
  known := by
    intro call member
    cases List.mem_singleton.mp member
    trivial
  room := by
    simpa [Course.room, Course.ofClass, Call.isInnerVisit] using unvisited_le_size s _

/-- No run of calls from here is infinite, and all of them come to the same end. On the way no class is expanded twice and
no path is entered twice, and of the calls that follow classes at most one more is open than classes are known, just as
of those that enter paths. -/
structure Terminates (s : Surroundings) (start last : Course) : Prop where
  finite : Acc (fun later earlier => Step s earlier later) start
  returned : last.calls = []
  reached : ∀ c, Runs s start c → Runs s c last
  expandsOnce : ∀ c, Runs s start c → c.expanded.Nodup
  entersOnce : ∀ c, Runs s start c → c.entered.Nodup
  depth : ∀ c, Runs s start c →
    c.calls.countP Call.isVisit ≤ s.registry.size + 1 ∧ c.calls.countP Call.isEmit ≤ s.registry.size + 1

theorem Sound.terminates (coherent : s.registry.Coherent) {start last : Course} (sound : Sound s start)
    (run : Runs s start last) (returned : last.calls = []) : Terminates s start last where
  finite := acc_of_runs run returned
  returned := returned
  reached := fun _ part => run.to_end returned part
  expandsOnce := fun _ part => (List.nodup_append.mp (sound.run coherent part).once.classes).1
  entersOnce := fun _ part => (sound.run coherent part).once.paths
  depth := fun _ part => (sound.run coherent part).depth_le

end Walk

/-- Whatever is registered, and whatever circles there are, the calls that look for the imports of a file or of a class
terminate, and what they have found when all have returned is what is imported. -/
theorem Surroundings.import_calls_terminate (operations : List Registry.Operation) (resolver : Resolver)
    (workspace : Workspace) (config : Config) :
    let s : Surroundings := ⟨Registry.after operations, resolver, workspace, config⟩
    (∀ (file : String) (existing : List String) (claims : Claims),
      let classes := s.registry.classesIn file
      ∃ last, Walk.Terminates s (.ofFile file classes existing claims) last ∧
        s.resolveFile file classes existing claims = (last.walk.result, last.walk.claims.getD claims)) ∧
    (∀ d : Descriptor, ∃ last, Walk.Terminates s (.ofClass d) last ∧
      s.closure d = last.walk.entries.filterMap ImportEntry.script?) := by
  intro s
  have coherent : s.registry.Coherent := (Registry.holds_after operations).coherent
  constructor
  next =>
    intro file existing claims classes
    have distinct : (classes.map (·.name)).Nodup := coherent.map_name_classesIn file ▸ coherent.distinct file
    obtain ⟨expanded, entered, run⟩ := Walk.returns_own coherent classes
      (Walk.start file existing (classes.map (·.name)) (some claims)) [] [] []
    exact ⟨_, (Walk.sound_ofFile s file distinct existing claims).terminates coherent run rfl, rfl⟩
  next =>
    intro d
    obtain ⟨expanded, entered, run⟩ := Walk.returns_visit coherent (s.registry.size + 1) true d
      (Nat.lt_succ_of_le (Walk.unvisited_le_size s (Walk.start d.sourceFile [] [d.name] none))) [] [d.name] []
    exact ⟨_, (Walk.sound_ofClass s d).terminates coherent run rfl, rfl⟩

end ClassLinker
