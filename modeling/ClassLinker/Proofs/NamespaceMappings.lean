import ClassLinker.Proofs.NormalPaths
import ClassLinker.Proofs.Table
import ClassLinker.Resolver

set_option autoImplicit false

namespace ClassLinker

theorem Text.eq_of_byteSize_eq {front back front' back' : List Char} (same : front ++ back = front' ++ back')
    (size : byteSize front = byteSize front') : front = front' :=
  calc
    front = takeBytes (byteSize front) (front ++ back) := (takeBytes_byteSize front back).symm
    _ = takeBytes (byteSize front') (front' ++ back') := by rw [same, size]
    _ = front' := takeBytes_byteSize front' back'

namespace Resolver

def Splits (name stem rest : String) : Prop := name = stem ∧ rest = "" ∨ name = stem ++ "." ++ rest

theorem restAfter?_eq_some {stem name rest : List Char} :
    restAfter? stem name = some rest ↔ name = stem ∧ rest = [] ∨ name = stem ++ '.' :: rest := by
  unfold restAfter?
  split
  next same => simp [same, eq_comm]
  next differs =>
    simp only [Option.bind_eq_some_iff, Text.dropStart?_eq_some, differs, false_and, false_or]
    constructor
    next =>
      rintro ⟨_, cut, rfl⟩
      exact cut
    next => exact fun cut => ⟨'.' :: rest, cut, rfl⟩

theorem splits_iff {name stem rest : String} :
    Splits name stem rest ↔ restAfter? stem.toList name.toList = some rest.toList := by
  rw [restAfter?_eq_some, Splits]
  simp only [← String.toList_inj, String.toList_append, String.toList_empty]
  simp

theorem Splits.starts {name stem rest : String} (splits : Splits name stem rest) :
    ∃ back, name.toList = stem.toList ++ back := by
  rcases splits with ⟨rfl, _⟩ | rfl
  next => exact ⟨[], by simp⟩
  next => exact ⟨'.' :: rest.toList, by simp⟩

theorem Splits.stem_unique {name stem stem' rest rest' : String} (splits : Splits name stem rest)
    (splits' : Splits name stem' rest') (size : Text.byteSize stem.toList = Text.byteSize stem'.toList) :
    stem = stem' := by
  obtain ⟨back, split⟩ := splits.starts
  obtain ⟨back', split'⟩ := splits'.starts
  exact String.toList_inj.mp (Text.eq_of_byteSize_eq (split.symm.trans split') size)

theorem Splits.rest_unique {name stem rest rest' : String} (splits : Splits name stem rest)
    (splits' : Splits name stem rest') : rest = rest' :=
  String.toList_inj.mp (Option.some.inj ((splits_iff.mp splits).symm.trans (splits_iff.mp splits')))

structure Arranges (mappings : List Mapping) (table : Table Target) : Prop where
  entries : ∀ m : Mapping, m ∈ mappings ↔ table[m.stem]? = some m.target
  longestFirst : mappings.Pairwise fun a b => stemSize b ≤ stemSize a

theorem arranges_ofConfig (c : Config) : Arranges (ofConfig c).mappings c.mappings where
  entries m := by
    rw [ofConfig, List.mem_mergeSort, List.mem_map]
    constructor
    next =>
      rintro ⟨entry, member, rfl⟩
      exact Std.ExtTreeMap.mem_toList_iff_getElem?_eq_some.mp member
    next =>
      intro found
      exact ⟨(m.stem, m.target), Std.ExtTreeMap.mem_toList_iff_getElem?_eq_some.mpr found, rfl⟩
  longestFirst := by
    refine (List.pairwise_mergeSort ?_ ?_ _).imp of_decide_eq_true
    next =>
      intro a b c first second
      exact decide_eq_true (Nat.le_trans (of_decide_eq_true second) (of_decide_eq_true first))
    next =>
      intro a b
      simpa using Nat.le_total (stemSize b) (stemSize a)

/-- The mapping `m`, with the rest of the name, is the one of a table with the longest namespace that a name lies in. -/
structure Decides (table : Table Target) (name : String) (m : Mapping) (rest : String) : Prop where
  entry : table[m.stem]? = some m.target
  splits : Splits name m.stem rest
  longest : ∀ {stem rest' : String} {target : Target}, table[stem]? = some target → Splits name stem rest' →
    Text.byteSize stem.toList ≤ Text.byteSize m.stem.toList

section
variable {table : Table Target} {name : String} {m : Mapping} {rest : String} (decides : Decides table name m rest)
include decides

theorem Decides.shorter {stem rest' : String} {target : Target} (entry : table[stem]? = some target)
    (splits : Splits name stem rest') (other : stem ≠ m.stem) :
    Text.byteSize stem.toList < Text.byteSize m.stem.toList :=
  Nat.lt_of_le_of_ne (decides.longest entry splits) fun size => other (splits.stem_unique decides.splits size)

theorem Decides.unique {m' : Mapping} {rest' : String} (decides' : Decides table name m' rest') :
    m = m' ∧ rest = rest' := by
  have stem : m.stem = m'.stem := by
    apply decides.splits.stem_unique decides'.splits
    exact Nat.le_antisymm (decides'.longest decides.entry decides.splits)
      (decides.longest decides'.entry decides'.splits)
  have target : m.target = m'.target := Option.some.inj (decides.entry.symm.trans (stem ▸ decides'.entry))
  obtain ⟨own, ownTarget⟩ := m
  obtain rfl : own = m'.stem := stem
  obtain rfl : ownTarget = m'.target := target
  exact ⟨rfl, decides.splits.rest_unique decides'.splits⟩

end

section
variable {r : Resolver} {table : Table Target} (arranged : Arranges r.mappings table) {name : String}
include arranged

theorem decides_of_mappingFor? {m : Mapping} {rest : String} (found : r.mappingFor? name = some (m, rest)) :
    Decides table name m rest := by
  obtain ⟨before, m', after, list, fits, missed⟩ := List.findSome?_eq_some_iff.mp found
  obtain ⟨cs, cut, same⟩ := Option.map_eq_some_iff.mp fits
  cases same
  refine ⟨(arranged.entries m).mp (by simp [list]), splits_iff.mpr (by simpa using cut), ?_⟩
  intro stem rest' target entry splits
  have listed : (⟨stem, target⟩ : Mapping) ∈ before ++ m :: after := list ▸ (arranged.entries ⟨stem, target⟩).mpr entry
  have ordered := list ▸ arranged.longestFirst
  rcases List.mem_append.mp listed with early | late
  next =>
    -- what was tried before does not fit
    have failed := missed _ early
    rw [splits_iff.mp splits] at failed
    cases failed
  next =>
    rcases List.mem_cons.mp late with own | later
    next => exact Nat.le_of_eq (by rw [← own])
    next => exact (List.pairwise_cons.mp (List.pairwise_append.mp ordered).2.1).1 _ later

theorem isSome_mappingFor?_iff : (r.mappingFor? name).isSome ↔
    ∃ stem target rest, table[stem]? = some target ∧ Splits name stem rest := by
  constructor
  next =>
    intro present
    obtain ⟨⟨m, rest⟩, found⟩ := Option.isSome_iff_exists.mp present
    have decides := decides_of_mappingFor? arranged found
    exact ⟨m.stem, m.target, rest, decides.entry, decides.splits⟩
  next =>
    rintro ⟨stem, target, rest, entry, splits⟩
    rw [mappingFor?, List.findSome?_isSome_iff]
    exact ⟨⟨stem, target⟩, (arranged.entries _).mpr entry, by simp [splits_iff.mp splits]⟩

theorem mappingFor?_eq_some_iff {m : Mapping} {rest : String} :
    r.mappingFor? name = some (m, rest) ↔ Decides table name m rest := by
  refine ⟨decides_of_mappingFor? arranged, fun decides => ?_⟩
  obtain ⟨⟨m', rest'⟩, found⟩ := Option.isSome_iff_exists.mp
    ((isSome_mappingFor?_iff arranged).mpr ⟨m.stem, m.target, rest, decides.entry, decides.splits⟩)
  obtain ⟨rfl, rfl⟩ := decides.unique (decides_of_mappingFor? arranged found)
  exact found

end

/-- The longest namespace that a name lies in decides: a mapping is found exactly if there is such a namespace, it is
the one whose namespace is longer than all others, and every way to list the mappings of the table by length finds it. -/
theorem longest_namespace_decides (c : Config) (name : String) :
    (((ofConfig c).mappingFor? name).isSome ↔
      ∃ stem target rest, c.mappings[stem]? = some target ∧ Splits name stem rest) ∧
    (∀ m rest, (ofConfig c).mappingFor? name = some (m, rest) →
      c.mappings[m.stem]? = some m.target ∧
      (name = m.stem ∧ rest = "" ∨ name = m.stem ++ "." ++ rest) ∧
      ∀ stem target rest', c.mappings[stem]? = some target → Splits name stem rest' → stem ≠ m.stem →
        Text.byteSize stem.toList < Text.byteSize m.stem.toList) ∧
    (∀ r : Resolver, Arranges r.mappings c.mappings → r.mappingFor? name = (ofConfig c).mappingFor? name) := by
  have arranged := arranges_ofConfig c
  refine ⟨isSome_mappingFor?_iff arranged, ?_, ?_⟩
  next =>
    intro m rest found
    have decides := decides_of_mappingFor? arranged found
    exact ⟨decides.entry, decides.splits, fun _ _ _ entry splits other => decides.shorter entry splits other⟩
  next =>
    intro r arranged'
    apply Option.ext
    rintro ⟨m, rest⟩
    rw [mappingFor?_eq_some_iff arranged', mappingFor?_eq_some_iff arranged]

theorem longest_of_four_namespaces :
    let c := (((Config.default.withMapping "Ext" .disabled).withMapping "Ext." (.path "/dotted")).withMapping
      "Ext.ux" (.path "/ux")).withMapping "Ext.é" (.path "/accent")
    ((ofConfig c).mappingFor? "Ext.ux.Grid" = some (⟨"Ext.ux", .path "/ux"⟩, "Grid") ∧
      ∀ stem target rest, c.mappings[stem]? = some target → Splits "Ext.ux.Grid" stem rest → stem ≠ "Ext.ux" →
        Text.byteSize stem.toList < Text.byteSize "Ext.ux".toList) ∧
    (ofConfig c).mappingFor? "Ext..Grid" = some (⟨"Ext.", .path "/dotted"⟩, "Grid") ∧
    (ofConfig c).mappingFor? "Ext.uxGrid" = some (⟨"Ext", .disabled⟩, "uxGrid") ∧
    (ofConfig c).mappingFor? "Extra" = none := by
  -- Two namespaces have the same size, and one ends with a dot.
  intro c
  let r : Resolver := ⟨[⟨"Ext.é", .path "/accent"⟩, ⟨"Ext.ux", .path "/ux"⟩, ⟨"Ext.", .path "/dotted"⟩,
    ⟨"Ext", .disabled⟩], ["js"]⟩
  have arranged : Arranges r.mappings c.mappings := by
    -- the table is asked for a name, which is compared with the four
    refine ⟨?_, by decide⟩
    rintro ⟨stem, target⟩
    have normal : WebPath.normaliseBase "/accent" = "/accent" ∧ WebPath.normaliseBase "/ux" = "/ux" ∧
        WebPath.normaliseBase "/dotted" = "/dotted" := by decide +kernel
    simp only [c, r, Config.withMapping, Config.default, Target.normal, normal, Table.get_insert, List.mem_cons,
      List.not_mem_nil, or_false, Mapping.mk.injEq]
    split_ifs <;> grind
  have same (name : String) : r.mappingFor? name = (ofConfig c).mappingFor? name :=
    (longest_namespace_decides c name).2.2 r arranged
  have found : (ofConfig c).mappingFor? "Ext.ux.Grid" = some (⟨"Ext.ux", .path "/ux"⟩, "Grid") := by
    rw [← same]
    decide +kernel
  refine ⟨⟨found, ((longest_namespace_decides c "Ext.ux.Grid").2.1 _ _ found).2.2⟩, ?_⟩
  simp only [← same]
  decide +kernel

end Resolver

end ClassLinker
