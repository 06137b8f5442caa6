import Mathlib.Order.Bounds.Defs
import ClassLinker.Proofs.RegistryLog
import ClassLinker.Proofs.WalkSearch

set_option autoImplicit false

namespace ClassLinker

theorem Registry.Coherent.name_apart {r : Registry} (coherent : r.Coherent) {file path : String}
    (differs : path ≠ file) {d e : Descriptor} (here : d ∈ r.classesIn path) (there : e ∈ r.classesIn file) :
    d.name ≠ e.name := by
  intro same
  obtain ⟨present, source⟩ := coherent.mem_classesIn.mp here
  obtain ⟨present', source'⟩ := coherent.mem_classesIn.mp there
  rw [same, present'] at present
  cases present
  exact differs (source.symm.trans source')

namespace Surroundings

/-- Paths that hold all that some classes need, apart from what is barred: the paths that the classes refer to and,
with every path, those that the classes in it refer to. -/
structure Complete (s : Surroundings) (classes : List Descriptor) (barred paths : Set String) : Prop where
  direct : ∀ d ∈ classes, ∀ path ∈ s.targets d, path ∉ barred → path ∈ paths
  further : ∀ path ∈ paths, ∀ d ∈ s.registry.classesIn path, ∀ other ∈ s.targets d, other ∉ barred → other ∈ paths

def RefersTo (s : Surroundings) (p q : String) : Prop := ∃ d ∈ s.registry.classesIn p, q ∈ s.targets d

def LeadsTo (s : Surroundings) (paths : List String) : String → String → Prop :=
  Relation.ReflTransGen fun p q => p ∈ paths ∧ q ∈ paths ∧ s.RefersTo p q

/-- Of two paths in the list, the one that the other refers to stands before it, unless the two are on a circle. -/
def DependencyFirst (s : Surroundings) (paths : List String) : Prop :=
  ∀ p ∈ paths, ∀ q ∈ paths, p ≠ q → s.RefersTo p q → [q, p].Sublist paths ∨ s.LeadsTo paths q p

theorem mem_targetsIn {s : Surroundings} {own : List String} {p q : String} :
    q ∈ s.targetsIn own p ↔ ∃ d ∈ s.registry.classesIn p, d.name ∉ own ∧ q ∈ s.targets d := by
  simp [targetsIn, and_assoc]

section
variable {s : Surroundings} {own : List String} {classes : List Descriptor} {barred : Set String} {found : List String}
  (search : DepthFirst.Search (s.targetsIn own) (classes.flatMap s.targets) barred found)
include search

theorem isLeast_of_search (apart : ∀ path ∉ barred, ∀ d ∈ s.registry.classesIn path, d.name ∉ own) :
    IsLeast {paths | s.Complete classes barred paths} {path | path ∈ found} := by
  constructor
  next =>
    refine ⟨?_, ?_⟩
    next =>
      intro d member path target free
      exact (search.agenda_found (List.mem_flatMap.mpr ⟨d, member, target⟩)).resolve_left free
    next =>
      intro path inside d member other target free
      have follows := mem_targetsIn.mpr ⟨d, member, apart path (search.unmarked inside) d member, target⟩
      exact (search.next_found inside follows).resolve_left free
  next =>
    intro paths complete path inside
    refine search.subset_of_closed ?_ ?_ inside
    next =>
      intro path start free
      obtain ⟨d, member, target⟩ := List.mem_flatMap.mp start
      exact complete.direct d member path target free
    next =>
      intro path inside other follows free
      obtain ⟨d, member, _, target⟩ := mem_targetsIn.mp follows
      exact complete.further path inside d member other target free

theorem before_or_leadsTo {p q : String} (listed : p ∈ found) (listed' : q ∈ found) {d : Descriptor}
    (member : d ∈ s.registry.classesIn p) (other : d.name ∉ own) (target : q ∈ s.targets d) :
    [q, p].Sublist found ∨ s.LeadsTo found q p := by
  rcases search.before_or_linked listed (mem_targetsIn.mpr ⟨d, member, other, target⟩) listed' with before | way
  next => exact .inl before
  next =>
    -- every edge that the search follows is a reference
    refine .inr (Relation.ReflTransGen.mono ?_ q p way)
    rintro a b ⟨here, there, follows⟩
    obtain ⟨d, member, _, target⟩ := mem_targetsIn.mp follows
    exact ⟨here, there, d, member, target⟩

theorem dependencyFirst_of_search (apart : ∀ path ∉ barred, ∀ d ∈ s.registry.classesIn path, d.name ∉ own) :
    s.DependencyFirst found := by
  rintro p listed q listed' _ ⟨d, member, target⟩
  exact before_or_leadsTo search listed listed' member (apart p (search.unmarked listed) d member) target

end

section
variable {s : Surroundings} (coherent : s.registry.Coherent)
include coherent

theorem search_of_class (d : Descriptor) :
    DepthFirst.Search (s.targetsIn [d.name]) ([d].flatMap s.targets) {d.sourceFile} (s.closure d) := by
  rw [List.flatMap_singleton]
  exact search_closure coherent d

theorem apart_of_class {d : Descriptor} (known : s.registry.get? d.name = some d) :
    ∀ path ∉ ({d.sourceFile} : Set String), ∀ e ∈ s.registry.classesIn path, e.name ∉ [d.name] := by
  intro path free e member
  rw [List.mem_singleton]
  exact coherent.name_apart free member (coherent.mem_classesIn.mpr ⟨known, rfl⟩)

theorem apart_of_file (file : String) (existing : List String) :
    ∀ path ∉ {path | path = file ∨ path ∈ existing}, ∀ e ∈ s.registry.classesIn path,
      e.name ∉ (s.registry.classesIn file).map (·.name) := by
  intro path free e member own
  obtain ⟨d, there, same⟩ := List.mem_map.mp own
  exact coherent.name_apart (fun same => free (.inl same)) member there same.symm

end

/-- Whatever is registered, the scripts that are imported for a class or for the classes of a file are listed once
each, and they are the smallest set of paths that holds all that the classes need, if the file itself and the paths
that it imports already are passed over. -/
theorem imports_least_complete (operations : List Registry.Operation) (resolver : Resolver) (workspace : Workspace)
    (config : Config) :
    let s : Surroundings := ⟨Registry.after operations, resolver, workspace, config⟩
    (∀ d, s.registry.get? d.name = some d →
      (s.closure d).Nodup ∧ IsLeast {paths | s.Complete [d] {d.sourceFile} paths} {path | path ∈ s.closure d}) ∧
    (∀ (file : String) (existing : List String) (owners : Table String),
      let classes := s.registry.classesIn file
      let found := (s.resolveFile file classes existing ⟨.file, owners⟩).1.entries.filterMap ImportEntry.script?
      found.Nodup ∧
      IsLeast {paths | s.Complete classes {path | path = file ∨ path ∈ existing} paths} {path | path ∈ found}) := by
  intro s
  have coherent : s.registry.Coherent := (Registry.holds_after operations).coherent
  constructor
  next =>
    intro d known
    have search := search_of_class coherent d
    exact ⟨search.nodup, isLeast_of_search search (apart_of_class coherent known)⟩
  next =>
    intro file existing owners classes found
    have search := search_resolveFile coherent file classes existing ⟨.file, owners⟩ rfl
    exact ⟨search.nodup, isLeast_of_search search (apart_of_file coherent file existing)⟩

theorem imports_of_circle_least :
    let a : Descriptor := { name := "A", requires := ["B"], sourceFile := "/a" }
    let s : Surroundings := ⟨Registry.after [.register a,
      .register { name := "B", uses := ["C"], sourceFile := "/b" },
      .register { name := "B.Part", requires := ["A", "D"], sourceFile := "/b" },
      .register { name := "C", mixins := ["B"], sourceFile := "/c" },
      .register { name := "D", sourceFile := "/d" }], ⟨[], ["js"]⟩, ⟨[]⟩, Config.default⟩
    s.registry.get? a.name = some a ∧ s.closure a = ["/c", "/d", "/b"] ∧ (s.closure a).Nodup ∧
      IsLeast {paths | s.Complete [a] {a.sourceFile} paths} {path | path ∈ s.closure a} := by
  -- Two files need each other, and one of them needs the class that is asked for.
  intro a s
  have known : s.registry.get? a.name = some a ∧ s.closure a = ["/c", "/d", "/b"] := by decide +kernel
  exact ⟨known.1, known.2, (imports_least_complete _ _ _ _).1 a known.1⟩

/-- Whatever is registered, the scripts that are imported for a class or for the classes of a file stand after those
that they need. If other classes are given for the file, this holds for the references of all classes but those that
have the name of one that is given. -/
theorem imports_dependency_first (operations : List Registry.Operation) (resolver : Resolver) (workspace : Workspace)
    (config : Config) :
    let s : Surroundings := ⟨Registry.after operations, resolver, workspace, config⟩
    (∀ d, s.registry.get? d.name = some d → s.DependencyFirst (s.closure d)) ∧
    (∀ (file : String) (existing : List String) (owners : Table String),
      s.DependencyFirst ((s.resolveFile file (s.registry.classesIn file) existing ⟨.file, owners⟩).1.entries.filterMap
        ImportEntry.script?)) ∧
    (∀ (file : String) (classes : List Descriptor) (existing : List String) (owners : Table String),
      let found := (s.resolveFile file classes existing ⟨.file, owners⟩).1.entries.filterMap ImportEntry.script?
      ∀ p ∈ found, ∀ q ∈ found, p ≠ q → ∀ d ∈ s.registry.classesIn p, d.name ∉ classes.map (·.name) →
        q ∈ s.targets d → [q, p].Sublist found ∨ s.LeadsTo found q p) := by
  intro s
  have coherent : s.registry.Coherent := (Registry.holds_after operations).coherent
  refine ⟨?_, ?_, ?_⟩
  next =>
    intro d known
    exact dependencyFirst_of_search (search_of_class coherent d) (apart_of_class coherent known)
  next =>
    intro file existing owners
    exact dependencyFirst_of_search
      (search_resolveFile coherent file (s.registry.classesIn file) existing ⟨.file, owners⟩ rfl)
      (apart_of_file coherent file existing)
  next =>
    intro file classes existing owners found p listed q listed' _ d member other target
    exact before_or_leadsTo (search_resolveFile coherent file classes existing ⟨.file, owners⟩ rfl) listed
      listed' member other target

theorem circle_after_dependency :
    let a : Descriptor := { name := "A", requires := ["B"], sourceFile := "/a" }
    let part : Descriptor := { name := "B.Part", requires := ["A", "D"], sourceFile := "/b" }
    let operations : List Registry.Operation := [.register a,
      .register { name := "B", uses := ["C"], sourceFile := "/b" }, .register part,
      .register { name := "C", mixins := ["B"], sourceFile := "/c" }, .register { name := "D", sourceFile := "/d" }]
    let s : Surroundings := ⟨Registry.after operations, ⟨[], ["js"]⟩, ⟨[]⟩, Config.default⟩
    let found := (s.resolveFile "/a" [a] ["/c"] ⟨.file, ∅⟩).1.entries.filterMap ImportEntry.script?
    s.registry.get? a.name = some a ∧ s.closure a = ["/c", "/d", "/b"] ∧ found = ["/d", "/b"] ∧
      (part ∈ s.registry.classesIn "/b" ∧ part.name ∉ [a].map (·.name) ∧ "/d" ∈ s.targets part) ∧
      s.DependencyFirst (s.closure a) ∧ (["/d", "/b"].Sublist found ∨ s.LeadsTo found "/d" "/b") := by
  -- Two files need each other, and one of them needs a third one.
  intro a part operations s found
  have runs : s.registry.get? a.name = some a ∧ s.closure a = ["/c", "/d", "/b"] ∧ found = ["/d", "/b"] ∧
      (part ∈ s.registry.classesIn "/b" ∧ part.name ∉ [a].map (·.name) ∧ "/d" ∈ s.targets part) := by decide +kernel
  obtain ⟨known, closure, listed, member, other, target⟩ := runs
  have last : "/b" ∈ found := by simp [listed]
  have before : "/d" ∈ found := by simp [listed]
  obtain ⟨first, _, given⟩ := imports_dependency_first operations ⟨[], ["js"]⟩ ⟨[]⟩ Config.default
  exact ⟨known, closure, listed, ⟨member, other, target⟩, first a known,
    given "/a" [a] ["/c"] ∅ "/b" last "/d" before (by decide) part member other target⟩

/-- A file is given two classes, one of which has moved to another file in the registry. The path of that file is
imported before what the class in it needs. -/
theorem moved_class_before_dependency :
    let y : Descriptor := { name := "Y", requires := ["X"], sourceFile := "/a" }
    let x : Descriptor := { name := "X", requires := ["Q"], sourceFile := "/a" }
    let s : Surroundings := ⟨Registry.after [.register y, .register x, .register { x with sourceFile := "/p" },
      .register { name := "Q", sourceFile := "/q" }], ⟨[], ["js"]⟩, ⟨[]⟩, Config.default⟩
    let found := (s.resolveFile "/a" [y, x] [] ⟨.file, ∅⟩).1.entries.filterMap ImportEntry.script?
    found = ["/p", "/q"] ∧ ¬ s.DependencyFirst found := by
  intro y x s found
  have runs : found = ["/p", "/q"] ∧ "/q" ∈ s.targetsIn [] "/p" ∧ s.targetsIn [] "/q" = [] := by decide +kernel
  obtain ⟨listed, refers, last⟩ := runs
  refine ⟨listed, fun first => ?_⟩
  obtain ⟨d, member, _, target⟩ := mem_targetsIn.mp refers
  have here : "/p" ∈ found := by simp [listed]
  have there : "/q" ∈ found := by simp [listed]
  rcases first "/p" here "/q" there (by decide) ⟨d, member, target⟩ with before | way
  next =>
    rw [listed] at before
    exact absurd before (by decide)
  next =>
    -- no reference leads away from the second path
    rcases way.cases_head with same | ⟨other, ⟨_, _, d, member, target⟩, _⟩
    next => exact absurd same (by decide)
    next =>
      have away : other ∈ s.targetsIn [] "/q" := mem_targetsIn.mpr ⟨d, member, by simp, target⟩
      rw [last] at away
      cases away

end Surroundings

end ClassLinker
