import ClassLinker.Session.Analysis

set_option autoImplicit false

namespace ClassLinker.Table

variable {α β : Type}

@[simp] theorem get_insert (t : Table α) (key name : String) (value : α) :
    (t.insert key value)[name]? = if key = name then some value else t[name]? := by
  simp [Std.ExtTreeMap.getElem?_insert]

@[simp] theorem get_erase (t : Table α) (key name : String) :
    (t.erase key)[name]? = if key = name then none else t[name]? := by
  simp [Std.ExtTreeMap.getElem?_erase]

@[simp] theorem get_map (t : Table α) (f : String → α → β) (name : String) :
    (t.map f)[name]? = t[name]?.map (f name) := by
  rw [Std.ExtTreeMap.getElem?_map]

theorem ext_get {t u : Table α} (same : ∀ name : String, t[name]? = u[name]?) : t = u :=
  Std.ExtTreeMap.ext_getElem? (fun {name} => same name)

theorem get_eraseAll (names : List String) (t : Table α) (name : String) :
    (names.foldl (fun m key => m.erase key) t)[name]? = if name ∈ names then none else t[name]? := by
  induction names generalizing t with
  | nil => simp
  | cons key rest ih =>
    rw [List.foldl_cons, ih]
    by_cases later : name ∈ rest
    next => simp [later]
    next =>
      by_cases same : key = name
      next => simp [same]
      next => simp [later, same, Ne.symm same]

theorem get_insertAll (entries : List (String × α)) (t : Table α) (name : String) :
    (entries.foldl (fun m (key, value) => m.insert key value) t)[name]? =
      (entries.reverse.lookup name).or t[name]? := by
  induction entries generalizing t with
  | nil => simp
  | cons entry rest ih =>
    obtain ⟨key, value⟩ := entry
    rw [List.foldl_cons, ih]
    simp only [List.reverse_cons, get_insert]
    cases found : rest.reverse.lookup name with
    | some later => simp [List.lookup_append, found]
    | none =>
      by_cases same : key = name
      next => simp [List.lookup_append, found, same]
      next =>
        have differs : (name == key) = false := by simpa using Ne.symm same
        simp [List.lookup_append, found, same, List.lookup_cons, differs]

theorem lookup_toList_reverse (t : Table α) (name : String) :
    t.toList.reverse.lookup name = t[name]? := by
  cases found : t.toList.reverse.lookup name with
  | some value =>
    have member : (name, value) ∈ t.toList.reverse := by
      rw [List.lookup_eq_some_iff] at found
      obtain ⟨before, after, split, _⟩ := found
      rw [split]
      simp
    rw [List.mem_reverse, Std.ExtTreeMap.mem_toList_iff_getElem?_eq_some] at member
    exact member.symm
  | none =>
    cases present : t[name]? with
    | none => rfl
    | some value =>
      have member : (name, value) ∈ t.toList.reverse := by
        rw [List.mem_reverse, Std.ExtTreeMap.mem_toList_iff_getElem?_eq_some]
        exact present
      rw [List.lookup_eq_none_iff] at found
      have := found _ member
      simp at this

theorem get_overlay (t u : Table α) (name : String) :
    (u.toList.foldl (fun m (key, value) => m.insert key value) t)[name]? = u[name]?.or t[name]? := by
  rw [get_insertAll, lookup_toList_reverse]

theorem contains_iff (t : Table α) (name : String) : t.contains name = true ↔ ∃ value, t[name]? = some value := by
  rw [Std.ExtTreeMap.contains_eq_isSome_getElem?, Option.isSome_iff_exists]

theorem contains_marks (names : List String) (name : String) :
    (Table.ofList (names.map (·, ()))).contains name = true ↔ name ∈ names := by
  rw [contains_iff, Table.ofList]
  simp only [get_insertAll, Std.ExtTreeMap.getElem?_empty, Option.or_none]
  constructor
  next =>
    rintro ⟨value, found⟩
    rw [List.lookup_eq_some_iff] at found
    obtain ⟨before, after, split, _⟩ := found
    have member : (name, value) ∈ (names.map (·, ())).reverse := by
      rw [split]
      simp
    simpa using member
  next =>
    intro member
    cases found : (names.map (·, ())).reverse.lookup name with
    | some value => exact ⟨value, rfl⟩
    | none =>
      rw [List.lookup_eq_none_iff] at found
      have := found (name, ()) (by simpa using member)
      simp at this

end ClassLinker.Table

namespace ClassLinker

theorem Session.get_forgetMissing (missing : MissingImports) (names : List String) (name : String) :
    (Session.forgetMissing missing names)[name]? = if name ∈ names then none else missing[name]? :=
  Table.get_eraseAll names missing name

namespace Cache

@[simp] theorem get_put (cache : Cache) (r : FileRecord) (path : String) :
    (cache.put r)[path]? = if r.path = path then some r else cache[path]? :=
  Table.get_insert cache r.path path r

@[simp] theorem get_update (cache : Cache) (path other : String) (f : FileRecord → FileRecord) :
    (cache.update path f)[other]? = if path = other then cache[other]?.map f else cache[other]? := by
  unfold update
  cases found : cache[path]? with
  | none =>
    by_cases same : path = other
    next =>
      subst same
      simp [found]
    next => simp [same]
  | some r =>
    by_cases same : path = other
    next =>
      subst same
      simp [found]
    next => simp [same]

@[simp] theorem get_invalidateAll (cache : Cache) (path : String) :
    cache.invalidateAll[path]? = cache[path]?.map dropOutput :=
  Table.get_map cache _ path

end Cache

end ClassLinker
