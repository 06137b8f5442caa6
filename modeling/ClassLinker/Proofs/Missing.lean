import Mathlib.Data.List.Induction
import ClassLinker.Proofs.Dependence

set_option autoImplicit false

namespace ClassLinker

theorem extendUnique_eq_eraseDups (values : List String) : extendUnique [] values = values.eraseDups := by
  induction values using List.reverseRecOn with
  | nil => rfl
  | append_singleton values value ih =>
    have last : extendUnique [] (values ++ [value]) = pushUnique (extendUnique [] values) value := List.foldl_append
    rw [last, ih, List.eraseDups_append, pushUnique]
    by_cases present : value ∈ values <;> simp [List.removeAll, present, List.mem_eraseDups, List.eraseDups_cons]

namespace Surroundings

def leadsNowhere (s : Surroundings) (reference : String) : Bool :=
  match s.lead reference with
  | .missing _ => true
  | .paths _ | .disabled | .cycle _ => false

def unresolved (s : Surroundings) (d : Descriptor) : List String :=
  extendUnique [] (d.references.filter s.leadsNowhere)

def lacks (s : Surroundings) (d : Descriptor) : Option (List String) :=
  if s.unresolved d = [] then none else some (s.unresolved d)

theorem leadsNowhere_eq {s s' : Surroundings} (outline : s'.registry.outline = s.registry.outline)
    (alternates : s'.registry.alternates = s.registry.alternates) (resolver : s'.resolver = s.resolver)
    (reference : String) : s'.leadsNowhere reference = s.leadsNowhere reference := by
  unfold leadsNowhere lead
  rw [alternates]
  cases Resolver.canonicalName s.registry.alternates reference with
  | error problem => rfl
  | ok name =>
    have known : (s'.registry.get? name).map Descriptor.bare = (s.registry.get? name).map Descriptor.bare := by
      rw [← Registry.get_outline, ← Registry.get_outline, outline]
    have disabled : s'.isDisabled name = s.isDisabled name := by
      unfold isDisabled
      rw [resolver]
    simp only [leadOfCanonical, disabled, resolver]
    cases s.isDisabled name with
    | true => rfl
    | false =>
      cases present : s.registry.get? name with
      | some d =>
        rw [present, Option.map_some, Option.map_eq_some_iff] at known
        obtain ⟨e, known, _⟩ := known
        rw [known]
        rfl
      | none =>
        rw [present, Option.map_none, Option.map_eq_none_iff] at known
        rw [known]
        -- a name under a mapping leads to paths, even if there are none
        unfold Resolver.resolveCanonical
        cases s.resolver.mappingFor? name with
        | none => rfl
        | some mapping =>
          obtain ⟨m, rest⟩ := mapping
          cases target : m.target <;> simp [target]

theorem lacks_eq {s s' : Surroundings} (outline : s'.registry.outline = s.registry.outline)
    (alternates : s'.registry.alternates = s.registry.alternates) (resolver : s'.resolver = s.resolver)
    {d d' : Descriptor} (same : d'.bare = d.bare) : s'.lacks d' = s.lacks d := by
  have references : d'.references = d.references := by
    have : d'.bare.references = d.bare.references := by rw [same]
    exact this
  have nowhere : s'.leadsNowhere = s.leadsNowhere := funext (leadsNowhere_eq outline alternates resolver)
  unfold lacks unresolved
  rw [references, nowhere]

theorem lacks_eq_iff {s s' : Surroundings} {d : Descriptor} : s.lacks d = s'.lacks d ↔
    ∀ reference ∈ d.references, s.leadsNowhere reference = s'.leadsNowhere reference := by
  have listed (s : Surroundings) : (s.lacks d).getD [] = s.unresolved d := by
    unfold lacks
    split
    next none => rw [none, Option.getD_none]
    next => rfl
  have mem (s : Surroundings) {reference : String} (own : reference ∈ d.references) :
      reference ∈ s.unresolved d ↔ s.leadsNowhere reference = true := by
    rw [unresolved, extendUnique_eq_eraseDups, List.mem_eraseDups, List.mem_filter]
    exact and_iff_right own
  constructor
  next =>
    intro same reference own
    rw [Bool.eq_iff_iff, ← mem s own, ← mem s' own, ← listed, ← listed, same]
  next =>
    intro same
    unfold lacks unresolved
    rw [List.filter_congr same]

end Surroundings

namespace Walk

theorem claim_missing (w : Walk) (path : String) : (w.claim path).2.missing = w.missing := by
  unfold claim
  cases w.claims <;> rfl

theorem foldl_missing {α : Type} {f : Walk → α → Walk} (each : ∀ w x, (f w x).missing = w.missing) (xs : List α)
    (w : Walk) : (xs.foldl f w).missing = w.missing := by
  induction xs generalizing w with
  | nil => rfl
  | cons x rest ih => rw [List.foldl_cons, ih, each]

theorem importPath_missing (s : Surroundings) (w : Walk) (path : String) :
    (importPath s w path).missing = w.missing := by
  unfold importPath
  split
  next => rw [addScript, claim_missing]
  next => rw [claim_missing]

theorem emit_missing {s : Surroundings} {visit : Descriptor → Walk → Walk}
    (visited : ∀ d w, (visit d w).missing = w.missing) (w : Walk) (path : String) :
    (emit s visit w path).missing = w.missing := by
  by_cases met : path ∈ w.marks
  next => rw [emit_met met]
  next =>
    rw [emit_unmet met, importPath_missing, foldl_missing]
    next => rfl
    next =>
      intro w d
      unfold followOnce
      split
      next => rfl
      next => rw [visited, markVisited]

theorem addCycle_missing (w : Walk) (problem : Problem) : (w.addCycle problem).missing = w.missing := by
  unfold addCycle
  simp only
  split <;> rfl

theorem visit_indirect_missing (s : Surroundings) (n : Nat) (d : Descriptor) (w : Walk) :
    (visit s n false d w).missing = w.missing := by
  induction n generalizing d w with
  | zero => rfl
  | succ n ih =>
    rw [visit_succ]
    apply foldl_missing
    intro w reference
    unfold followReference
    cases s.lead reference with
    | paths found => exact foldl_missing (emit_missing ih) found w
    | disabled => rfl
    | missing namespaceName => rfl
    | cycle problem => exact addCycle_missing w problem

def note (s : Surroundings) (name : String) (missing : MissingImports) (reference : String) : MissingImports :=
  if s.leadsNowhere reference then missing.insert name (pushUnique (missing[name]?.getD []) reference) else missing

theorem visit_direct_missing (s : Surroundings) (n : Nat) (d : Descriptor) (w : Walk) :
    (visit s (n + 1) true d w).missing = d.references.foldl (note s d.name) w.missing := by
  rw [visit_succ]
  generalize d.references = references
  induction references generalizing w with
  | nil => rfl
  | cons reference rest ih =>
    rw [List.foldl_cons, List.foldl_cons, ih]
    congr 1
    unfold followReference note Surroundings.leadsNowhere
    cases s.lead reference with
    | paths found => exact foldl_missing (emit_missing (visit_indirect_missing s n)) found w
    | disabled => rfl
    | missing namespaceName => rfl
    | cycle problem => exact addCycle_missing w problem

theorem get_notes (s : Surroundings) (name : String) (references : List String) (missing : MissingImports)
    (other : String) :
    (references.foldl (note s name) missing)[other]? =
      if name = other ∧ references.filter s.leadsNowhere ≠ [] then
        some (extendUnique (missing[name]?.getD []) (references.filter s.leadsNowhere))
      else missing[other]? := by
  induction references generalizing missing with
  | nil => simp
  | cons reference rest ih =>
    rw [List.foldl_cons, ih]
    unfold note
    cases nowhere : s.leadsNowhere reference with
    | false => simp [nowhere]
    | true =>
      by_cases same : name = other
      next =>
        subst same
        by_cases last : rest.filter s.leadsNowhere = []
        next => simp [nowhere, last, extendUnique]
        next => simp [nowhere, last, extendUnique]
      next => simp [same]

theorem extendUnique_ne_nil {values : List String} (some : values ≠ []) : extendUnique [] values ≠ [] := by
  obtain ⟨value, rest, rfl⟩ := List.exists_cons_of_ne_nil some
  have kept (list : List String) (member : value ∈ list) : value ∈ extendUnique list rest := by
    unfold extendUnique
    clear some
    induction rest generalizing list with
    | nil => exact member
    | cons other rest ih => exact ih (pushUnique list other) (by simp [member])
  have member : value ∈ extendUnique [] (value :: rest) := kept [value] (by simp)
  exact List.ne_nil_of_mem member

theorem visitOwn_missing (s : Surroundings) (w : Walk) (d : Descriptor) (absent : w.missing[d.name]? = none)
    (name : String) :
    (visitOwn s w d).missing[name]? = if d.name = name then s.lacks d else w.missing[name]? := by
  unfold visitOwn
  rw [visit_direct_missing, get_notes]
  unfold Surroundings.lacks Surroundings.unresolved
  by_cases same : d.name = name
  next =>
    subst same
    by_cases none : d.references.filter s.leadsNowhere = []
    next => simp [none, absent, extendUnique]
    next =>
      have some := extendUnique_ne_nil none
      simp [none, absent, some]
  next => simp [same]

theorem visitOwns_missing (s : Surroundings) (classes : List Descriptor) (w : Walk)
    (distinct : (classes.map (·.name)).Nodup) (absent : ∀ d ∈ classes, w.missing[d.name]? = none) (name : String) :
    (classes.foldl (visitOwn s) w).missing[name]? =
      match classes.find? (·.name = name) with
      | some d => s.lacks d
      | none => w.missing[name]? := by
  induction classes generalizing w with
  | nil => rfl
  | cons d rest ih =>
    rw [List.map_cons, List.nodup_cons] at distinct
    have own : w.missing[d.name]? = none := absent d (by simp)
    have others : ∀ e ∈ rest, (visitOwn s w d).missing[e.name]? = none := by
      intro e member
      have differs : d.name ≠ e.name := fun same => distinct.1 (same ▸ List.mem_map_of_mem member)
      rw [visitOwn_missing s w d own, if_neg differs]
      exact absent e (by simp [member])
    rw [List.foldl_cons, ih (visitOwn s w d) distinct.2 others, List.find?_cons]
    by_cases same : d.name = name
    next =>
      have later : rest.find? (·.name = name) = none := by
        rw [List.find?_eq_none]
        intro e member equal
        have equal : e.name = name := by simpa using equal
        exact distinct.1 (same.trans equal.symm ▸ List.mem_map_of_mem member)
      rw [later]
      simp [same, visitOwn_missing s w d own]
    next => simp [same, visitOwn_missing s w d own]

end Walk

namespace Session

def lacks (s : Session) (w : Workspace) (name : String) : Option (List String) :=
  (s.registry.get? name).bind (s.surroundings w).lacks

theorem lacks_of_resolver {s s' : Session} (resolver : s'.resolver = s.resolver)
    (outline : s'.registry.outline = s.registry.outline)
    (alternates : s'.registry.alternates = s.registry.alternates) (w w' : Workspace) (name : String) :
    s'.lacks w' name = s.lacks w name := by
  have known : (s'.registry.get? name).map Descriptor.bare = (s.registry.get? name).map Descriptor.bare := by
    rw [← Registry.get_outline, ← Registry.get_outline, outline]
  unfold lacks
  cases present : s.registry.get? name with
  | none =>
    rw [present, Option.map_none, Option.map_eq_none_iff] at known
    rw [known]
    rfl
  | some d =>
    rw [present, Option.map_some, Option.map_eq_some_iff] at known
    obtain ⟨e, known, same⟩ := known
    have report : (s'.surroundings w').lacks e = (s.surroundings w).lacks d :=
      Surroundings.lacks_eq outline alternates resolver same
    rw [known]
    exact report

theorem lacks_eq {s s' : Session} (settings : SameSettings s s')
    (outline : s'.registry.outline = s.registry.outline)
    (alternates : s'.registry.alternates = s.registry.alternates) (w w' : Workspace) (name : String) :
    s'.lacks w' name = s.lacks w name :=
  lacks_of_resolver settings.resolver outline alternates w w' name

theorem missing_resolveImports {s : Session} (sound : s.registry.Sound) (w : Workspace) (path name : String) :
    (s.resolveImports w path).2.missing[name]? =
      if name ∈ s.registry.namesIn path then s.lacks w name else s.missing[name]? := by
  have names := sound.coherent.map_name_classesIn path
  have walked : (s.resolveImports w path).1.missing[name]? =
      match (s.registry.classesIn path).find? (·.name = name) with
      | some d => (s.surroundings w).lacks d
      | none => none := by
    have distinct : ((s.registry.classesIn path).map (·.name)).Nodup := names ▸ sound.coherent.distinct path
    have all := Walk.visitOwns_missing (s.surroundings w) (s.registry.classesIn path)
      (Walk.start path (s.existingImports path) ((s.registry.classesIn path).map (·.name))
        (some (s.claims.release path))) distinct (by simp [Walk.start]) name
    have nothing : (Walk.start path (s.existingImports path) ((s.registry.classesIn path).map (·.name))
        (some (s.claims.release path))).missing[name]? = none := by simp [Walk.start]
    rw [nothing] at all
    exact all
  rw [resolveImports_missing, names, walked]
  by_cases member : name ∈ s.registry.namesIn path
  next =>
    obtain ⟨d, present, source⟩ := sound.coherent.listed member
    have named := sound.coherent.named present
    have inside : d ∈ s.registry.classesIn path := by
      rw [sound.coherent.mem_classesIn, named]
      exact ⟨present, source⟩
    cases first : (s.registry.classesIn path).find? (·.name = name) with
    | none =>
      rw [List.find?_eq_none] at first
      exact absurd named (by simpa using first d inside)
    | some e =>
      have own : e.name = name := by simpa using List.find?_some first
      have here := (sound.coherent.mem_classesIn.mp (List.mem_of_find?_eq_some first)).1
      rw [own] at here
      simp [member, lacks, here]
  next =>
    have none : (s.registry.classesIn path).find? (·.name = name) = none := by
      rw [List.find?_eq_none]
      intro d inside equal
      have equal : d.name = name := by simpa using equal
      exact member (names ▸ equal ▸ List.mem_map_of_mem inside)
    simp [member, none]

end Session

end ClassLinker
