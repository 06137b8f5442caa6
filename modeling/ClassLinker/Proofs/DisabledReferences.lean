import ClassLinker.Proofs.AlternateNames
import ClassLinker.Proofs.NamespaceMappings
import ClassLinker.Proofs.Walk

set_option autoImplicit false

namespace ClassLinker

def Descriptor.withoutReferences (drop : String → Bool) (d : Descriptor) : Descriptor :=
  { d with
    parent := d.parent.filter (!drop ·)
    overrideTarget := d.overrideTarget.filter (!drop ·)
    requires := d.requires.filter (!drop ·)
    uses := d.uses.filter (!drop ·)
    mixins := d.mixins.filter (!drop ·) }

@[simp] theorem Descriptor.name_withoutReferences (drop : String → Bool) (d : Descriptor) :
    (d.withoutReferences drop).name = d.name := rfl

theorem Descriptor.references_withoutReferences (drop : String → Bool) (d : Descriptor) :
    (d.withoutReferences drop).references = d.references.filter (!drop ·) := by
  have single (reference : Option String) : (reference.filter (!drop ·)).toList = reference.toList.filter (!drop ·) := by
    cases reference with
    | none => rfl
    | some reference => cases kept : drop reference <;> simp [kept]
  simp only [references, withoutReferences, single, List.filter_append]

namespace Registry

def withoutReferences (drop : String → Bool) (r : Registry) : Registry :=
  { r with classes := r.classes.map fun _ d => d.withoutReferences drop }

section
variable (drop : String → Bool) (r : Registry)

@[simp] theorem size_withoutReferences : (r.withoutReferences drop).size = r.size := Std.ExtTreeMap.size_map

theorem get?_withoutReferences (name : String) :
    (r.withoutReferences drop).get? name = (r.get? name).map (·.withoutReferences drop) := by
  simp [get?, withoutReferences]

theorem classesIn_withoutReferences (file : String) :
    (r.withoutReferences drop).classesIn file = (r.classesIn file).map (·.withoutReferences drop) := by
  simp only [classesIn, List.map_filterMap, get?_withoutReferences]
  rfl

end

end Registry

namespace Surroundings

def withoutReferences (drop : String → Bool) (s : Surroundings) : Surroundings :=
  { s with registry := s.registry.withoutReferences drop }

theorem lead_withoutReferences (drop : String → Bool) (s : Surroundings) (reference : String) :
    (s.withoutReferences drop).lead reference = s.lead reference := by
  have canonical (name : String) : (s.withoutReferences drop).leadOfCanonical name = s.leadOfCanonical name := by
    have known : (s.withoutReferences drop).registry.get? name = _ := s.registry.get?_withoutReferences drop name
    unfold leadOfCanonical
    rw [known]
    cases s.registry.get? name <;> rfl
  have alternates : (s.withoutReferences drop).registry.alternates = s.registry.alternates := rfl
  simp only [lead, alternates, canonical]

end Surroundings

namespace Walk

section
variable {s : Surroundings} {drop : String → Bool}
  (silent : ∀ reference, drop reference = true → s.lead reference = .disabled)

theorem emit_withoutReferences {visit visit' : Descriptor → Walk → Walk}
    (same : ∀ d w, visit' (d.withoutReferences drop) w = visit d w) (w : Walk) (path : String) :
    emit (s.withoutReferences drop) visit' w path = emit s visit w path := by
  by_cases met : path ∈ w.marks
  next => rw [emit_met met, emit_met met]
  next =>
    have classes : (s.withoutReferences drop).registry.classesIn path = _ :=
      s.registry.classesIn_withoutReferences drop path
    have once (w : Walk) (d : Descriptor) : followOnce visit' w (d.withoutReferences drop) = followOnce visit w d := by
      simp only [followOnce, Descriptor.name_withoutReferences, same]
    rw [emit_unmet met, emit_unmet met, classes, List.foldl_map]
    simp only [once]
    rfl

include silent

theorem followReference_withoutReferences {visit visit' : Descriptor → Walk → Walk}
    (same : ∀ d w, visit' (d.withoutReferences drop) w = visit d w) (direct : Bool) (d : Descriptor) (w : Walk)
    (reference : String) :
    (if !drop reference then
      followReference (s.withoutReferences drop) visit' direct (d.withoutReferences drop) w reference else w) =
      followReference s visit direct d w reference := by
  cases dropped : drop reference with
  | true =>
    unfold followReference
    rw [silent reference dropped]
    rfl
  | false =>
    have emitted : emit (s.withoutReferences drop) visit' = emit s visit :=
      funext fun w => funext fun path => emit_withoutReferences same w path
    unfold followReference
    rw [Surroundings.lead_withoutReferences, emitted]
    rfl

theorem visit_withoutReferences (n : Nat) (direct : Bool) (d : Descriptor) (w : Walk) :
    visit (s.withoutReferences drop) n direct (d.withoutReferences drop) w = visit s n direct d w := by
  induction n generalizing direct d w with
  | zero => rfl
  | succ n ih =>
    rw [visit_succ, visit_succ, Descriptor.references_withoutReferences, List.foldl_filter]
    simp only [followReference_withoutReferences silent (ih false)]

end

end Walk

namespace Surroundings

theorem resolveFile_withoutReferences {s : Surroundings} {drop : String → Bool}
    (silent : ∀ reference, drop reference = true → s.lead reference = .disabled) (file : String)
    (classes : List Descriptor) (existing : List String) (claims : Claims) :
    (s.withoutReferences drop).resolveFile file (classes.map (·.withoutReferences drop)) existing claims =
      s.resolveFile file classes existing claims := by
  have own (w : Walk) (d : Descriptor) :
      Walk.visitOwn (s.withoutReferences drop) w (d.withoutReferences drop) = Walk.visitOwn s w d := by
    have size : (s.withoutReferences drop).registry.size = s.registry.size := s.registry.size_withoutReferences drop
    rw [Walk.visitOwn, size, Walk.visit_withoutReferences silent]
    rfl
  have names : (classes.map (·.withoutReferences drop)).map (·.name) = classes.map (·.name) := by
    rw [List.map_map]
    rfl
  simp only [resolveFile, names, List.foldl_map, own]

/-- Whether a reference leads, over alternate names, to a name in a namespace that is switched off. -/
def isHidden (s : Surroundings) (reference : String) : Bool :=
  match Resolver.canonicalName s.registry.alternates reference with
  | .ok name => s.isDisabled name
  | .error _ => false

theorem lead_of_isHidden {s : Surroundings} {reference : String} (hidden : s.isHidden reference = true) :
    s.lead reference = .disabled := by
  unfold isHidden at hidden
  unfold lead
  split at hidden
  next name led =>
    rw [led]
    exact if_pos hidden
  next => cases hidden

theorem isDisabled_iff {s : Surroundings} {table : Table Target} (arranged : Resolver.Arranges s.resolver.mappings table)
    {name : String} : s.isDisabled name = true ↔ ∃ stem rest, Resolver.Decides table name ⟨stem, .disabled⟩ rest := by
  simp only [isDisabled, Option.any_eq_true, ← Resolver.mappingFor?_eq_some_iff arranged, decide_eq_true_eq]
  constructor
  next =>
    rintro ⟨⟨⟨stem, _⟩, rest⟩, found, rfl⟩
    exact ⟨stem, rest, found⟩
  next =>
    rintro ⟨stem, rest, found⟩
    exact ⟨_, found, rfl⟩

theorem isHidden_iff {s : Surroundings} {table : Table Target} (arranged : Resolver.Arranges s.resolver.mappings table)
    {reference : String} : s.isHidden reference = true ↔
      ∃ name, (∃ k ≤ 16, Resolver.EndsAt s.registry.alternates k reference name) ∧
        ∃ stem rest, Resolver.Decides table name ⟨stem, .disabled⟩ rest := by
  have led : s.isHidden reference = true ↔
      ∃ name, Resolver.canonicalName s.registry.alternates reference = .ok name ∧ s.isDisabled name = true := by
    unfold isHidden
    cases Resolver.canonicalName s.registry.alternates reference <;> simp
  simp only [led, Resolver.canonicalName_eq_ok_iff, isDisabled_iff arranged]
  rfl

/-- Whatever is registered, mapped and claimed, the references whose canonical names lie in a namespace that is switched
off, as the longest namespace decides, can be deleted from the classes of a file and from all that are registered: the
imports that are found, what is said about them and the claims stay the same. -/
theorem disabled_references_invisible (registry : Registry) (settings config : Config) (workspace : Workspace)
    (file : String) (classes : List Descriptor) (existing : List String) (claims : Claims) :
    let s : Surroundings := ⟨registry, .ofConfig settings, workspace, config⟩
    (∀ reference, s.isHidden reference = true ↔
      ∃ name, (∃ k ≤ 16, Resolver.EndsAt registry.alternates k reference name) ∧
        ∃ stem rest, Resolver.Decides settings.mappings name ⟨stem, .disabled⟩ rest) ∧
    (s.withoutReferences s.isHidden).resolveFile file (classes.map (·.withoutReferences s.isHidden)) existing claims =
      s.resolveFile file classes existing claims := by
  intro s
  refine ⟨fun reference => isHidden_iff (Resolver.arranges_ofConfig settings), ?_⟩
  exact resolveFile_withoutReferences (fun reference => lead_of_isHidden) file classes existing claims

end Surroundings

end ClassLinker
