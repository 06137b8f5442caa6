import ClassLinker.Proofs.Search

set_option autoImplicit false

namespace ClassLinker

theorem mem_sortedUnique {names : List String} {name : String} : name ∈ sortedUnique names ↔ name ∈ names := by
  have marked : sortedUnique names = (Table.ofList (names.map (·, ()))).keys := by
    rw [sortedUnique, Table.ofList, List.foldl_map]
  rw [marked, Std.ExtTreeMap.mem_keys, ← Std.ExtTreeMap.contains_iff_mem, Table.contains_marks]

theorem sortedUnique_pairwise (names : List String) : (sortedUnique names).Pairwise (· < ·) := by
  apply Std.ExtTreeMap.ordered_keys.imp
  intro a b before
  exact compareOfLessAndEq_eq_lt.mp before

namespace Sources

def definitions (sources : Sources) : List Descriptor := sources.flatMap (·.2)

def defines (name : String) (source : String × List Descriptor) : Bool := (source.2.map (·.name)).contains name

def lastDefiner? (sources : Sources) (name : String) : Option (String × List Descriptor) :=
  sources.reverse.find? (defines name)

def afterLastDefiner (sources : Sources) (name : String) : Sources :=
  sources.reverse.takeWhile (!defines name ·)

/-- Whether the last file that defines a name is followed by another one with the same path. -/
def overtaken (sources : Sources) (name : String) : Bool :=
  match sources.lastDefiner? name with
  | none => false
  | some source => (sources.afterLastDefiner name).any (·.1 = source.1)

section
variable {sources : Sources} {source : String × List Descriptor} {name : String}

theorem defines_eq (name : String) (source : String × List Descriptor) :
    defines name source = (Registry.lastDefined source.2 name).isSome := by
  rw [Bool.eq_iff_iff, Registry.lastDefined_isSome, defines, List.contains_iff_mem]

theorem lastDefiner?_append (sources : Sources) (source : String × List Descriptor) (name : String) :
    Sources.lastDefiner? (sources ++ [source]) name =
      if defines name source then some source else sources.lastDefiner? name := by
  rw [lastDefiner?, List.reverse_append, List.reverse_singleton, List.singleton_append, List.find?_cons]
  cases defines name source <;> rfl

theorem afterLastDefiner_append (sources : Sources) (source : String × List Descriptor) (name : String) :
    Sources.afterLastDefiner (sources ++ [source]) name =
      if defines name source then [] else source :: sources.afterLastDefiner name := by
  rw [afterLastDefiner, List.reverse_append, List.reverse_singleton, List.singleton_append, List.takeWhile_cons]
  cases defines name source <;> rfl

theorem overtaken_append (sources : Sources) (source : String × List Descriptor) (name : String) :
    Sources.overtaken (sources ++ [source]) name =
      if defines name source then false
      else (sources.lastDefiner? name).any (source.1 = ·.1) || sources.overtaken name := by
  rw [overtaken, lastDefiner?_append, afterLastDefiner_append, overtaken]
  cases defines name source with
  | true => rfl
  | false => cases sources.lastDefiner? name <;> simp

theorem lastDefined_definitions (sources : Sources) (name : String) :
    Registry.lastDefined sources.definitions name =
      (sources.lastDefiner? name).bind fun source => Registry.lastDefined source.2 name := by
  induction sources using List.reverseRecOn with
  | nil => rfl
  | append_singleton sources source ih =>
    have split : Registry.lastDefined (definitions (sources ++ [source])) name =
        (Registry.lastDefined source.2 name).or (Registry.lastDefined (definitions sources) name) := by
      simp [definitions, Registry.lastDefined, List.flatMap_append, List.find?_append]
    rw [split, lastDefiner?_append, defines_eq, ih]
    cases here : Registry.lastDefined source.2 name <;> simp [here]

theorem Own.lastDefiner (own : Sources.Own sources) (found : sources.lastDefiner? name = some source)
    {d : Descriptor} (defined : Registry.lastDefined source.2 name = some d) : d.sourceFile = source.1 := by
  have member : source ∈ sources := by simpa using List.mem_of_find?_eq_some found
  exact (own source member d (Registry.lastDefined_eq_some defined).1).1

end

end Sources

namespace Registry

theorem get_readAll {sources : Sources} (own : Sources.Own sources) (name : String) :
    (readAll sources).get? name =
      if sources.overtaken name then none else lastDefined sources.definitions name := by
  induction sources using List.reverseRecOn with
  | nil => rfl
  | append_singleton sources source ih =>
    rw [readAll_append, (sound_readAll sources).get_replace, ih own.init, Sources.overtaken_append,
      Sources.lastDefined_definitions, Sources.lastDefined_definitions, Sources.lastDefiner?_append,
      Sources.defines_eq]
    cases here : lastDefined source.2 name with
    | some d => simp [here]
    | none =>
      cases definer : Sources.lastDefiner? sources name with
      | none => simp
      | some earlier =>
        -- the class of the earlier file stays exactly if the two paths differ
        cases defined : lastDefined earlier.2 name with
        | none => simp [defined]
        | some d =>
          have file := own.init.lastDefiner definer defined
          by_cases same : source.1 = earlier.1 <;> cases Sources.overtaken sources name <;>
            simp_all [Option.filter_some, Ne.symm]

theorem get_readAll_classesAt {sources : Sources} (own : Sources.Own sources) (name : String) :
    (readAll sources).get? name =
      (sources.lastDefiner? name).bind fun source => lastDefined (Sources.classesAt sources source.1) name := by
  induction sources using List.reverseRecOn with
  | nil => rfl
  | append_singleton sources source ih =>
    rw [readAll_append, (sound_readAll sources).get_replace, ih own.init, Sources.lastDefiner?_append,
      Sources.classesAt_append, Sources.defines_eq]
    cases here : lastDefined source.2 name with
    | some d => simp [here]
    | none =>
      cases definer : Sources.lastDefiner? sources name with
      | none => simp
      | some earlier =>
        have file : ∀ d, lastDefined (Sources.classesAt sources earlier.1) name = some d → d.sourceFile = earlier.1 :=
          fun d defined => (own.init.classesAt (lastDefined_eq_some defined).1).1
        by_cases same : earlier.1 = source.1
        next =>
          -- the path was read again, and the class is not there any more
          rw [same] at file
          simpa [same, here] using file
        next =>
          cases defined : lastDefined (Sources.classesAt sources earlier.1) name with
          | none => simp [same, defined]
          | some d => simp [same, defined, file d defined]

end Registry

namespace Session

theorem search_pairwise (s : Session) (w : Workspace) :
    (s.search w).Pairwise fun x y => ∃ first ∈ s.candidates w, ∃ second ∈ s.candidates w,
      first < second ∧ s.pathOf first = x.1 ∧ s.pathOf second = y.1 := by
  have path {file : String} {source : String × List Descriptor} (found : s.source? w file = some source) :
      s.pathOf file = source.1 := by
    unfold source? at found
    split at found
    next => cases found
    next =>
      obtain ⟨classes, _, rfl⟩ := Option.map_eq_some_iff.mp found
      rfl
  unfold search
  rw [List.pairwise_filterMap]
  apply (sortedUnique_pairwise _).imp_of_mem
  intro first second here there before x found y found'
  exact ⟨first, here, second, there, before, path found, path found'⟩

theorem paths_of_overtaken {s : Session} {w : Workspace} {name : String}
    (overtaken : Sources.overtaken (s.search w) name = true) :
    ∃ first ∈ s.candidates w, ∃ second ∈ s.candidates w, first < second ∧ s.pathOf first = s.pathOf second := by
  -- A class is lost only between two files with the same path.
  unfold Sources.overtaken at overtaken
  split at overtaken
  next => cases overtaken
  next source found =>
    obtain ⟨later, member, same⟩ := List.any_eq_true.mp overtaken
    -- cut what was found at the last file that defines the name
    obtain ⟨defines, before, after, cut, silent⟩ := List.find?_eq_some_iff_append.mp found
    have split : Sources.afterLastDefiner (s.search w) name = before := by
      rw [Sources.afterLastDefiner, cut, List.takeWhile_append_of_pos silent]
      simp [defines]
    have order := s.search_pairwise w
    rw [← List.reverse_reverse (s.search w), cut, List.reverse_append, List.reverse_cons, List.append_assoc,
      List.pairwise_append] at order
    have pair := order.2.1
    rw [List.singleton_append, List.pairwise_cons] at pair
    obtain ⟨first, here, second, there, less, path, path'⟩ := pair.1 later (by simpa using split ▸ member)
    refine ⟨first, here, second, there, less, ?_⟩
    rw [path, path']
    exact (by simpa using same : later.1 = source.1).symm

/-- After a search, a class is what its last definition says, in the order of the files by their names and of the
definitions in each file. But a later file with the same path takes away a class that it does not define, and then no
file has it. -/
theorem discover_keeps_last_definitions (s : Session) (w : Workspace) (name : String) :
    (s.candidates w).Pairwise (· < ·) ∧
    ((s.discover w).2.registry.get? name).map Descriptor.bare =
      (if Sources.overtaken (s.search w) name then none
        else Registry.lastDefined (Sources.definitions (s.search w)) name) ∧
    (Sources.overtaken (s.search w) name = true →
      ∃ first ∈ s.candidates w, ∃ second ∈ s.candidates w,
        first < second ∧ s.pathOf first = s.pathOf second) := by
  refine ⟨sortedUnique_pairwise _, ?_, paths_of_overtaken⟩
  have own := search_own s w
  have read := Registry.get_readAll own name
  rw [(discovered_discover s w).registry.get, read]
  split
  next => rfl
  next =>
    -- nothing has been imported yet when a class is read
    cases defined : Registry.lastDefined (Sources.definitions (s.search w)) name with
    | none => rfl
    | some d =>
      obtain ⟨source, member, inside⟩ := List.mem_flatMap.mp (Registry.lastDefined_eq_some defined).1
      have fresh := (own source member d inside).2
      rw [Option.map_some, Descriptor.bare, ← fresh]

set_option maxRecDepth 100000 in
/-- Two files differ only in their extensions. The class of the first one is lost. -/
theorem class_lost_between_extensions :
    let config := { Config.default.withMapping "N" (.path "/src") with scripts := ["js", "ts"] }
    let w : Workspace := ⟨[("src", .directory [
      ("A.js", .file (.text "Ext.define('N.X',\x7b\x7d)")), ("A.ts", .file (.text "Ext.define('N.Y',\x7b\x7d)"))])]⟩
    ∃ s, create "/r" config = .ok s ∧ s.candidates w = ["/src/A.js", "/src/A.ts"] ∧
      (Registry.lastDefined (Sources.definitions (s.search w)) "N.X").map (·.sourceFile) = some "/src/A" ∧
      ((s.discover w).2.registry.get? "N.X").isNone ∧ ((s.discover w).2.registry.get? "N.Y").isSome := by
  intro config w
  -- the files are in order already, so that sorting them does nothing
  have walked : w.walk "/src" = ["/src/A.js", "/src/A.ts"] := by
    unfold Workspace.walk
    exact List.mergeSort_of_pairwise (l := ["/src/A.js", "/src/A.ts"]) (by decide +kernel)
  have reads : ∃ s, create "/r" config = .ok s ∧ s.config = config ∧
      s.resolver.baseDirectories = [("N", "/src")] ∧
      let found := ["/src/A.js", "/src/A.ts"].filterMap (s.source? w)
      (Registry.lastDefined (Sources.definitions found) "N.X").map (·.sourceFile) = some "/src/A" ∧
      ((Registry.readAll found).get? "N.X").isNone ∧ ((Registry.readAll found).get? "N.Y").isSome :=
    ⟨_, rfl, rfl, by decide +kernel, by decide +kernel⟩
  obtain ⟨s, created, own, directories, defined, lost, kept⟩ := reads
  have candidates : s.candidates w = ["/src/A.js", "/src/A.ts"] := by
    simp only [Session.candidates, own, directories, List.flatMap_singleton, Workspace.list, walked]
    decide +kernel
  have found : s.search w = ["/src/A.js", "/src/A.ts"].filterMap (s.source? w) := by rw [search, candidates]
  have registry := (discovered_discover s w).registry.get
  rw [← found] at defined lost kept
  refine ⟨s, created, candidates, defined, ?_, ?_⟩
  next =>
    have same := congrArg Option.isNone (registry "N.X")
    rw [Option.isNone_map, Option.isNone_map, lost] at same
    exact same
  next =>
    have same := congrArg Option.isSome (registry "N.Y")
    rw [Option.isSome_map, Option.isSome_map, kept] at same
    exact same

end Session

end ClassLinker
