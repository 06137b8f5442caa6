import ClassLinker.Config.Reader
import ClassLinker.Proofs.GlobAnchors
import ClassLinker.Proofs.Table

set_option autoImplicit false

namespace ClassLinker.Config

theorem exists_of_mem_mapM {ε α β : Type} {f : α → Except ε β} {items : List α} {values : List β}
    (read : items.mapM f = .ok values) {value : β} (member : value ∈ values) : ∃ item ∈ items, f item = .ok value := by
  induction items generalizing values with
  | nil =>
    cases read
    cases member
  | cons item items ih =>
    rw [List.mapM_cons] at read
    obtain ⟨first, own, read⟩ := bind_eq_ok.mp read
    obtain ⟨rest, others, same⟩ := bind_eq_ok.mp read
    cases same
    rcases List.mem_cons.mp member with rfl | later
    next => exact ⟨item, List.mem_cons_self, own⟩
    next =>
      obtain ⟨other, there, from'⟩ := ih others later
      exact ⟨other, List.mem_cons_of_mem item there, from'⟩

theorem mem_of_get_ofList {α : Type} {entries : List (String × α)} {name : String} {value : α}
    (found : (Table.ofList entries)[name]? = some value) : (name, value) ∈ entries := by
  rw [Table.ofList, Table.get_insertAll, Std.ExtTreeMap.getElem?_empty, Option.or_none] at found
  obtain ⟨before, after, split, _⟩ := List.lookup_eq_some_iff.mp found
  rw [← List.mem_reverse, split]
  simp

def HasNormalTargets (table : Table Target) : Prop :=
  ∀ {stem : String} {target : Target}, table[stem]? = some target → ∃ given : Target, given.normal = target

theorem exists_normal_of_readTarget {value : Json} {target : Target} (read : readTarget value = .ok target) :
    ∃ given : Target, given.normal = target := by
  unfold readTarget at read
  split at read <;> cases read
  next base => exact ⟨.path base, rfl⟩
  next => exact ⟨.disabled, rfl⟩

theorem hasNormalTargets_of_readMappings {value : Json} {table : Table Target} (read : readMappings value = .ok table) :
    HasNormalTargets table := by
  unfold readMappings at read
  split at read
  next members =>
    obtain ⟨entries, each, same⟩ := bind_eq_ok.mp read
    cases same
    intro stem target found
    obtain ⟨⟨name, value⟩, _, own⟩ := exists_of_mem_mapM each (mem_of_get_ofList found)
    obtain ⟨target', from', same⟩ := bind_eq_ok.mp own
    cases same
    exact exists_normal_of_readTarget from'
  next => cases read

theorem hasNormalTargets_of_setField {unit : Json.Unitary} {c c' : Config} {name : String} {value : Json}
    (normal : HasNormalTargets c.mappings) (read : setField unit c name value = .ok c') :
    HasNormalTargets c'.mappings := by
  unfold setField at read
  split at read
  next =>
    obtain ⟨table, own, same⟩ := bind_eq_ok.mp read
    cases same
    exact hasNormalTargets_of_readMappings own
  -- all other fields leave the mappings alone
  iterate 9
    next =>
      obtain ⟨_, _, same⟩ := bind_eq_ok.mp read
      cases same
      exact normal
  next =>
    cases read
    exact normal

theorem hasNormalTargets_of_setFields {unit : Json.Unitary} {c c' : Config} {fields : List (String × Json)}
    (normal : HasNormalTargets c.mappings) (read : setFields unit c fields = .ok c') :
    HasNormalTargets c'.mappings := by
  induction fields generalizing c with
  | nil =>
    cases read
    exact normal
  | cons field fields ih =>
    obtain ⟨next, first, rest⟩ := bind_eq_ok.mp read
    exact ih (hasNormalTargets_of_setField normal first) rest

theorem hasNormalTargets_default : HasNormalTargets default.mappings := by
  intro stem target found
  cases Std.ExtTreeMap.getElem?_empty.symm.trans found

theorem hasNormalTargets_of_read {unit : Json.Unitary} {value : Json} {c : Config} (made : read unit value = .ok c) :
    HasNormalTargets c.mappings := by
  unfold read at made
  split at made
  next => exact hasNormalTargets_of_setFields hasNormalTargets_default made
  next =>
    obtain ⟨c', fields, same⟩ := bind_eq_ok.mp made
    split at same <;> cases same
    exact hasNormalTargets_of_setFields hasNormalTargets_default fields
  next => cases made

/-- The configurations that a session can be given: read from a value or from TOML, and more mappings added. -/
inductive IsMade : Config → Prop where
  | json {value : Json} {c : Config} (made : ofJson value = .ok c) : IsMade c
  | toml {text : String} {c : Config} (made : ofToml text = .ok c) : IsMade c
  | mapped {c : Config} (made : IsMade c) (namespaceName : String) (target : Target) :
    IsMade (c.withMapping namespaceName target)

theorem IsMade.hasNormalTargets {c : Config} (made : c.IsMade) : HasNormalTargets c.mappings := by
  induction made with
  | json made =>
    unfold ofJson at made
    split at made
    next =>
      cases made
      exact hasNormalTargets_default
    next value _ =>
      split at made <;> cases made
      next own => exact hasNormalTargets_of_read own
  | toml made =>
    unfold ofToml at made
    split at made
    next => cases made
    next value _ =>
      split at made <;> cases made
      next own => exact hasNormalTargets_of_read own
  | mapped _ namespaceName target ih =>
    intro stem target' found
    rw [withMapping, Table.get_insert] at found
    split at found
    next => exact ⟨target, Option.some.inj found⟩
    next => exact ih found

end ClassLinker.Config
