import Std.Data.ExtTreeMap

set_option autoImplicit false

namespace ClassLinker

abbrev Table (α : Type) := Std.ExtTreeMap String α

namespace Table

def ofList {α : Type} (entries : List (String × α)) : Table α :=
  entries.foldl (fun t (name, value) => t.insert name value) ∅

end Table

def sortedUnique (names : List String) : List String :=
  (names.foldl (fun (t : Table Unit) name => t.insert name ()) ∅).keys

def pushUnique (list : List String) (value : String) : List String :=
  if value ∈ list then list else list ++ [value]

def extendUnique (list values : List String) : List String :=
  values.foldl pushUnique list

@[simp] theorem mem_pushUnique (list : List String) (value x : String) :
    x ∈ pushUnique list value ↔ x ∈ list ∨ x = value := by
  unfold pushUnique
  split
  next present =>
    constructor
    · exact Or.inl
    · rintro (old | rfl)
      · exact old
      · exact present
  next => simp

theorem nodup_pushUnique {list : List String} (unique : list.Nodup) (value : String) :
    (pushUnique list value).Nodup := by
  unfold pushUnique
  split
  next => exact unique
  next absent =>
    rw [List.nodup_append]
    refine ⟨unique, by simp, ?_⟩
    intro x old y new
    rw [List.mem_singleton] at new
    rintro rfl
    exact absent (new ▸ old)

end ClassLinker
