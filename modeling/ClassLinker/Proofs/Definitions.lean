import ClassLinker.Definition

set_option autoImplicit false

namespace ClassLinker

namespace Gathered

def Kept (d e : Descriptor) : Prop := e.name = d.name ∧ e.sourceFile = d.sourceFile ∧ e.imports = d.imports

theorem mixin_kept (t : Script.Tree) (g : Gathered) (entry : Script.Node) :
    Kept g.descriptor (mixin t g entry).descriptor := by
  unfold mixin
  split <;> exact ⟨rfl, rfl, rfl⟩

theorem mixins_kept (t : Script.Tree) (entries : List Script.Node) (g : Gathered) :
    Kept g.descriptor (entries.foldl (mixin t) g).descriptor := by
  induction entries generalizing g with
  | nil => exact ⟨rfl, rfl, rfl⟩
  | cons entry rest ih =>
    obtain ⟨name, source, imports⟩ := ih (mixin t g entry)
    obtain ⟨sameName, sameSource, sameImports⟩ := mixin_kept t g entry
    exact ⟨name.trans sameName, source.trans sameSource, imports.trans sameImports⟩

theorem property_kept (t : Script.Tree) (g : Gathered) (key : String) (value : Script.Node) :
    Kept g.descriptor (property t g key value).descriptor := by
  unfold property
  simp only
  split
  case h_7 =>
    split
    next => exact mixins_kept t value.children g
    next => exact ⟨rfl, rfl, rfl⟩
  all_goals exact ⟨rfl, rfl, rfl⟩

theorem member_kept (t : Script.Tree) (g : Gathered) (n : Script.Node) :
    Kept g.descriptor (member t g n).descriptor := by
  unfold member
  split
  next =>
    split
    next => exact property_kept t g _ _
    next => exact ⟨rfl, rfl, rfl⟩
  next => exact ⟨rfl, rfl, rfl⟩

theorem members_kept (t : Script.Tree) (members : List Script.Node) (g : Gathered) :
    Kept g.descriptor (members.foldl (member t) g).descriptor := by
  induction members generalizing g with
  | nil => exact ⟨rfl, rfl, rfl⟩
  | cons n rest ih =>
    obtain ⟨name, source, imports⟩ := ih (member t g n)
    obtain ⟨sameName, sameSource, sameImports⟩ := member_kept t g n
    exact ⟨name.trans sameName, source.trans sameSource, imports.trans sameImports⟩

end Gathered

namespace ClassDefinition

theorem fresh_of_mem_all {t : Script.Tree} {systems : List String} {file : String} {c : ClassDefinition}
    (member : c ∈ all t systems file) : c.descriptor.sourceFile = file ∧ c.descriptor.imports = [] := by
  unfold all at member
  rw [List.mem_filterMap] at member
  obtain ⟨call, _, made⟩ := member
  unfold ofCall? at made
  split at made
  next nameNode config _ _ =>
    split at made
    next => cases made
    next name _ =>
      split at made
      next => cases made
      next =>
        obtain ⟨_, source, imports⟩ := Gathered.members_kept t config.children ⟨{ name := name, sourceFile := file }, []⟩
        cases made
        exact ⟨source, imports⟩
  next => cases made

end ClassDefinition

end ClassLinker
