import ClassLinker.Proofs.Outline
import ClassLinker.Proofs.RegistryLog

set_option autoImplicit false

namespace ClassLinker.Registry

theorem Sound.apply {r : Registry} (sound : r.Sound) (operation : Operation) : (r.apply operation).Sound := by
  cases operation with
  | register d => exact ⟨sound.coherent.register d, sound.indexed.register d⟩
  | removeFile file => exact sound.removeFile file
  | setImports name imports => exact sound.setImports name imports
  | clear => exact sound_empty

theorem sound_after (operations : List Operation) : (after operations).Sound := by
  induction operations using List.reverseRecOn with
  | nil => exact sound_empty
  | append_singleton operations operation ih =>
    rw [after_append]
    exact ih.apply operation

theorem lookup_eq (r : Registry) (name : String) :
    r.lookup name = ((r.get? name).or (r.alternates[name]?.bind r.get?)).or (r.aliases[name]?.bind r.get?) := by
  unfold lookup
  cases r.get? name <;> cases r.alternates[name]?.bind r.get? <;> rfl

/-- After any operations, every alternate name and every alias leads to a class that has it, so that what is looked up
is always the name, an alternate name or the alias of the class that is found. -/
theorem entries_lead_to_classes_with_the_name (operations : List Operation) :
    let r := after operations
    (∀ key target, r.alternates[key]? = some target →
      ∃ d, r.get? target = some d ∧ d.name = target ∧ key ∈ d.alternateNames) ∧
    (∀ key target, r.aliases[key]? = some target →
      ∃ d, r.get? target = some d ∧ d.name = target ∧ d.shortName = some key) ∧
    (∀ name d, r.lookup name = some d →
      r.get? d.name = some d ∧ (name = d.name ∨ name ∈ d.alternateNames ∨ d.shortName = some name)) := by
  intro r
  have sound : r.Sound := sound_after operations
  have alternate (key target : String) (found : r.alternates[key]? = some target) :
      ∃ d, r.get? target = some d ∧ d.name = target ∧ key ∈ d.alternateNames := by
    obtain ⟨d, known, own⟩ := sound.indexed.declared .alternate found
    exact ⟨d, known, sound.coherent.named known, own⟩
  have short (key target : String) (found : r.aliases[key]? = some target) :
      ∃ d, r.get? target = some d ∧ d.name = target ∧ d.shortName = some key := by
    obtain ⟨d, known, own⟩ := sound.indexed.declared .short found
    exact ⟨d, known, sound.coherent.named known, Option.mem_toList.mp own⟩
  refine ⟨alternate, short, ?_⟩
  intro name d found
  rw [lookup_eq, Option.or_eq_some_iff, Option.or_eq_some_iff] at found
  rcases found with (own | ⟨_, led⟩) | ⟨_, led⟩
  next =>
    have named := sound.coherent.named own
    exact ⟨named.symm ▸ own, .inl named.symm⟩
  next =>
    obtain ⟨target, entry, known⟩ := Option.bind_eq_some_iff.mp led
    obtain ⟨e, known', rfl, own⟩ := alternate name target entry
    cases known.symm.trans known'
    exact ⟨known, .inr (.inl own)⟩
  next =>
    obtain ⟨target, entry, known⟩ := Option.bind_eq_some_iff.mp led
    obtain ⟨e, known', rfl, own⟩ := short name target entry
    cases known.symm.trans known'
    exact ⟨known, .inr (.inr own)⟩

theorem entries_lead_to_two_classes :
    let a : Descriptor := { name := "N.A", alternateNames := ["N.Z"], shortName := some "widget.a", sourceFile := "/a" }
    let b : Descriptor := { name := "N.B", alternateNames := ["N.Z"], sourceFile := "/b" }
    let r := after [.register a, .register b, .setImports "N.A" ["/b"]]
    (r.alternates["N.Z"]? = some "N.B" ∧
      ∃ d, r.get? "N.B" = some d ∧ d.name = "N.B" ∧ "N.Z" ∈ d.alternateNames) ∧
    (r.aliases["widget.a"]? = some "N.A" ∧
      ∃ d, r.get? "N.A" = some d ∧ d.name = "N.A" ∧ d.shortName = some "widget.a") ∧
    ∃ d, r.lookup "widget.a" = some d ∧ r.get? d.name = some d ∧
      ("widget.a" = d.name ∨ "widget.a" ∈ d.alternateNames ∨ d.shortName = some "widget.a") := by
  -- Two classes have the same alternate name, and one of them an alias.
  intro a b r
  have alternate : r.alternates["N.Z"]? = some "N.B" := by decide +kernel
  have short : r.aliases["widget.a"]? = some "N.A" := by decide +kernel
  have found : r.lookup "widget.a" = some { a with imports := ["/b"] } := by decide +kernel
  obtain ⟨alternates, shorts, lookups⟩ :=
    entries_lead_to_classes_with_the_name [.register a, .register b, .setImports "N.A" ["/b"]]
  exact ⟨⟨alternate, alternates _ _ alternate⟩, ⟨short, shorts _ _ short⟩, _, found, lookups _ _ found⟩

def Operation.Declares (kind : NameKind) (key : String) : Operation → Prop
  | .register d => key ∈ d.further kind
  | .removeFile _ | .setImports _ _ | .clear => False

def Operation.Removes (d : Descriptor) : Operation → Prop
  | .register e => e.name = d.name
  | .removeFile file => d.sourceFile = file
  | .setImports _ _ => False
  | .clear => True

def Since (operations : List Operation) (d : Descriptor) (lasting : Operation → Prop) : Prop :=
  ∃ before later, operations = before ++ .register d :: later ∧ ∀ operation ∈ later, lasting operation

def Stands (operations : List Operation) (d : Descriptor) : Prop := Since operations d (¬ ·.Removes d)

/-- The class is the last one that was registered with the name, whether it is still there or not. -/
def LastWith (operations : List Operation) (kind : NameKind) (key : String) (d : Descriptor) : Prop :=
  key ∈ d.further kind ∧ Since operations d (¬ ·.Declares kind key)

theorem not_since_nil {d : Descriptor} {lasting : Operation → Prop} : ¬ Since [] d lasting := by
  rintro ⟨before, later, none, _⟩
  simp at none

theorem since_append {operations : List Operation} {operation : Operation} {d : Descriptor}
    {lasting : Operation → Prop} :
    Since (operations ++ [operation]) d lasting ↔
      operation = .register d ∨ (Since operations d lasting ∧ lasting operation) := by
  constructor
  next =>
    rintro ⟨before, later, split, lasts⟩
    rcases List.eq_nil_or_concat later with rfl | ⟨later, last, rfl⟩
    next =>
      obtain ⟨_, same⟩ := List.append_inj' split rfl
      exact .inl (List.singleton_inj.mp same)
    next =>
      rw [List.concat_eq_append, ← List.cons_append, ← List.append_assoc] at split
      obtain ⟨rfl, same⟩ := List.append_inj' split rfl
      cases List.singleton_inj.mp same
      exact .inr ⟨⟨before, later, rfl, fun other member => lasts other (by simp [member])⟩, lasts operation (by simp)⟩
  next =>
    rintro (rfl | ⟨⟨before, later, rfl, lasts⟩, last⟩)
    next => exact ⟨operations, [], rfl, by simp⟩
    next =>
      refine ⟨before, later ++ [operation], by simp, ?_⟩
      intro other member
      rcases List.mem_append.mp member with earlier | final
      next => exact lasts other earlier
      next =>
        rw [List.mem_singleton.mp final]
        exact last

theorem stands_append {operations : List Operation} {operation : Operation} {d : Descriptor} :
    Stands (operations ++ [operation]) d ↔
      operation = .register d ∨ (Stands operations d ∧ ¬ operation.Removes d) := since_append

theorem get_after (operations : List Operation) {name : String} {b : Descriptor} :
    ((after operations).get? name).map Descriptor.bare = some b ↔
      ∃ d, d.name = name ∧ d.bare = b ∧ Stands operations d := by
  induction operations using List.reverseRecOn generalizing b with
  | nil =>
    simp only [Stands, not_since_nil, and_false, exists_false, iff_false]
    simp [get?, empty]
  | append_singleton operations operation ih =>
    simp only [after_append, stands_append]
    cases operation with
    | register e =>
      rw [Registry.apply, get_register]
      by_cases same : e.name = name
      next =>
        rw [if_pos same, Option.map_some, Option.some.injEq]
        constructor
        next =>
          intro bare
          exact ⟨e, same, bare, .inl rfl⟩
        next =>
          rintro ⟨d, named, bare, ⟨⟨⟩⟩ | ⟨_, kept⟩⟩
          next => exact bare
          next => exact absurd (same.trans named.symm) kept
      next =>
        rw [if_neg same, ih]
        constructor
        next =>
          rintro ⟨d, rfl, bare, stands⟩
          exact ⟨d, rfl, bare, .inr ⟨stands, same⟩⟩
        next =>
          rintro ⟨d, named, bare, ⟨⟨⟩⟩ | ⟨stands, _⟩⟩
          next => exact absurd named same
          next => exact ⟨d, named, bare, stands⟩
    | removeFile file =>
      rw [Registry.apply, (sound_after operations).coherent.get_removeFile, Option.map_eq_some_iff]
      -- the class that is there may have other imports than the one that was registered, but it has the same file
      constructor
      next =>
        rintro ⟨e, found, rfl⟩
        rw [Option.filter_eq_some_iff] at found
        obtain ⟨d, named, bare, stands⟩ := ih.mp (by rw [found.1, Option.map_some])
        refine ⟨d, named, bare, .inr ⟨stands, ?_⟩⟩
        rw [Operation.Removes, Descriptor.sourceFile_of_bare bare]
        simpa using found.2
      next =>
        rintro ⟨d, named, bare, new | ⟨stands, elsewhere⟩⟩
        next => cases new
        next =>
          obtain ⟨e, found, same⟩ := Option.map_eq_some_iff.mp (ih.mpr ⟨d, named, rfl, stands⟩)
          refine ⟨e, ?_, same.trans bare⟩
          rw [Option.filter_eq_some_iff]
          refine ⟨found, ?_⟩
          rw [Operation.Removes, ← Descriptor.sourceFile_of_bare same] at elsewhere
          simpa using elsewhere
    | setImports other imports =>
      rw [Registry.apply, (setImports_alike _ other imports).get, ih]
      simp [Operation.Removes]
    | clear => simp [Registry.apply, get?, empty, Operation.Removes]

theorem Stands.bare_eq {operations : List Operation} {d e : Descriptor} (stands : Stands operations d)
    (stands' : Stands operations e) (same : d.name = e.name) : d.bare = e.bare := by
  have first := (get_after operations).mpr ⟨d, rfl, rfl, stands⟩
  have second := (get_after operations).mpr ⟨e, rfl, rfl, stands'⟩
  rw [same] at first
  exact Option.some.inj (first.symm.trans second)

theorem Stands.mem_namesIn {operations : List Operation} {d : Descriptor} (stands : Stands operations d)
    (file : String) : d.name ∈ (after operations).namesIn file ↔ d.sourceFile = file := by
  have coherent := (sound_after operations).coherent
  obtain ⟨e, known, bare⟩ := Option.map_eq_some_iff.mp ((get_after operations).mpr ⟨d, rfl, rfl, stands⟩)
  rw [← Descriptor.sourceFile_of_bare bare]
  constructor
  next =>
    intro listed
    exact coherent.file_unique listed known
  next =>
    rintro rfl
    exact coherent.owned known

theorem index_after (operations : List Operation) {kind : NameKind} {key target : String} :
    ((after operations).index kind)[key]? = some target ↔
      ∃ d, d.name = target ∧ LastWith operations kind key d ∧ Stands operations d := by
  unfold LastWith
  induction operations using List.reverseRecOn generalizing target with
  | nil =>
    simp only [Stands, not_since_nil, and_false, exists_false, iff_false]
    cases kind <;> simp [index, empty]
  | append_singleton operations operation ih =>
    have indexed := (sound_after operations).indexed
    simp only [after_append, stands_append, since_append]
    cases operation with
    | register e =>
      rw [Registry.apply, indexed.get_register]
      by_cases own : key ∈ e.further kind
      next =>
        rw [if_pos own, Option.some.injEq]
        constructor
        next =>
          intro named
          exact ⟨e, named, ⟨own, .inl rfl⟩, .inl rfl⟩
        next =>
          rintro ⟨d, named, ⟨_, ⟨⟨⟩⟩ | ⟨_, silent⟩⟩, _⟩
          next => exact named
          next => exact absurd own silent
      next =>
        -- the entry stays unless the very class that it leads to is replaced
        rw [if_neg own, Option.filter_eq_some_iff, ih]
        constructor
        next =>
          rintro ⟨⟨d, rfl, ⟨has, last⟩, stands⟩, differs⟩
          have kept : e.name ≠ d.name := fun same => by simp [same] at differs
          exact ⟨d, rfl, ⟨has, .inr ⟨last, own⟩⟩, .inr ⟨stands, kept⟩⟩
        next =>
          rintro ⟨d, rfl, ⟨has, ⟨⟨⟩⟩ | ⟨last, _⟩⟩, ⟨⟨⟩⟩ | ⟨stands, kept⟩⟩
          next => exact absurd has own
          next => exact absurd has own
          next => exact absurd has own
          next => exact ⟨⟨d, rfl, ⟨has, last⟩, stands⟩, by simpa using Ne.symm kept⟩
    | removeFile file =>
      rw [Registry.apply, indexed.get_removeFile, Option.filter_eq_some_iff, ih]
      constructor
      next =>
        rintro ⟨⟨d, rfl, ⟨has, last⟩, stands⟩, unlisted⟩
        rw [decide_eq_true_iff, stands.mem_namesIn] at unlisted
        exact ⟨d, rfl, ⟨has, .inr ⟨last, id⟩⟩, .inr ⟨stands, unlisted⟩⟩
      next =>
        rintro ⟨d, rfl, ⟨has, new | ⟨last, _⟩⟩, new' | ⟨stands, elsewhere⟩⟩
        next => cases new
        next => cases new
        next => cases new'
        next =>
          refine ⟨⟨d, rfl, ⟨has, last⟩, stands⟩, ?_⟩
          rw [decide_eq_true_iff, stands.mem_namesIn]
          exact elsewhere
    | setImports other imports =>
      rw [Registry.apply, index_setImports, ih]
      simp [Operation.Removes, Operation.Declares]
    | clear => cases kind <;> simp [Registry.apply, index, empty, Operation.Removes]

theorem LastWith.unique {operations : List Operation} {kind : NameKind} {key : String} {d e : Descriptor}
    (last : LastWith operations kind key d) (last' : LastWith operations kind key e) : d = e := by
  obtain ⟨has, since⟩ := last
  obtain ⟨has', since'⟩ := last'
  induction operations using List.reverseRecOn with
  | nil => exact absurd since not_since_nil
  | append_singleton operations operation ih =>
    rw [since_append] at since since'
    rcases since with rfl | ⟨since, silent⟩
    next =>
      rcases since' with same | ⟨_, silent'⟩
      next =>
        cases same
        rfl
      next => exact absurd has silent'
    next =>
      rcases since' with rfl | ⟨since', _⟩
      next => exact absurd has' silent
      next => exact ih since since'

theorem Stands.exists_lastWith {operations : List Operation} {kind : NameKind} {key : String} {d : Descriptor}
    (stands : Stands operations d) (has : key ∈ d.further kind) :
    ∃ last, LastWith operations kind key last ∧ (Stands operations last ∨ last.name ≠ d.name) := by
  induction operations using List.reverseRecOn with
  | nil => exact absurd stands not_since_nil
  | append_singleton operations operation ih =>
    rcases stands_append.mp stands with rfl | ⟨stands, kept⟩
    next => exact ⟨d, ⟨has, since_append.mpr (.inl rfl)⟩, .inl (stands_append.mpr (.inl rfl))⟩
    next =>
      by_cases declares : operation.Declares kind key
      next =>
        cases operation with
        | register e => exact ⟨e, ⟨declares, since_append.mpr (.inl rfl)⟩, .inl (stands_append.mpr (.inl rfl))⟩
        | removeFile file => exact declares.elim
        | setImports name imports => exact declares.elim
        | clear => exact declares.elim
      next =>
        obtain ⟨last, ⟨own, since⟩, there⟩ := ih stands
        refine ⟨last, ⟨own, since_append.mpr (.inr ⟨since, declares⟩)⟩, ?_⟩
        rcases there with there | differs
        next =>
          by_cases removed : operation.Removes last
          next =>
            -- the operation would remove the other class with it if they had the same name
            right
            intro same
            have source := Descriptor.sourceFile_of_bare (there.bare_eq stands same)
            apply kept
            cases operation with
            | register e => exact Eq.trans removed same
            | removeFile file => exact source.symm.trans removed
            | setImports name imports => exact removed
            | clear => trivial
          next => exact .inl (stands_append.mpr (.inr ⟨there, removed⟩))
        next => exact .inr differs

theorem further_of_bare {d e : Descriptor} (same : d.bare = e.bare) (kind : NameKind) :
    d.further kind = e.further kind := by
  have equal : d.bare.further kind = e.bare.further kind := by rw [same]
  cases kind <;> exact equal

theorem index_of_known (operations : List Operation) (kind : NameKind) {key : String} {d : Descriptor}
    (known : (after operations).get? d.name = some d) (has : key ∈ d.further kind) :
    ∃ last, LastWith operations kind key last ∧
      (Stands operations last ∧ ((after operations).index kind)[key]? = some last.name ∨
        ¬ Stands operations last ∧ last.name ≠ d.name ∧ ((after operations).index kind)[key]? = none) := by
  obtain ⟨e, named, bare, stands⟩ := (get_after operations).mp (by rw [known, Option.map_some])
  have own : key ∈ e.further kind := further_of_bare bare kind ▸ has
  obtain ⟨last, lastWith, there⟩ := stands.exists_lastWith own
  refine ⟨last, lastWith, ?_⟩
  by_cases still : Stands operations last
  next => exact .inl ⟨still, (index_after operations).mpr ⟨last, rfl, lastWith, still⟩⟩
  next =>
    refine .inr ⟨still, named ▸ there.resolve_left still, ?_⟩
    -- an entry would lead to the same last class, and that one would stand
    rw [Option.eq_none_iff_forall_ne_some]
    intro target found
    obtain ⟨other, _, lastWith', stands'⟩ := (index_after operations).mp found
    exact still (lastWith.unique lastWith' ▸ stands')

theorem lookup_isSome_of_alias {r : Registry} (indexed : r.Indexed) {key target : String}
    (entry : r.aliases[key]? = some target) : (r.lookup key).isSome := by
  obtain ⟨d, known, _⟩ := indexed.declared .short entry
  rw [lookup_eq, entry, Option.bind_some, known, Option.isSome_or, Option.isSome_some, Bool.or_true]

/-- An alternate name of a class that is there leads to the class that was registered last with it, and the alias of
the class is found, unless the class that was registered last with it, which is another one then, is gone. In this case
the name has no entry, and the alias is found only if it is something else too. -/
theorem further_names_found_while_last_stands (operations : List Operation) {d : Descriptor}
    (known : (after operations).get? d.name = some d) :
    let r := after operations
    (∀ key ∈ d.alternateNames, ∃ last, LastWith operations .alternate key last ∧
      (Stands operations last ∧ r.alternates[key]? = some last.name ∧
          (∃ e, r.get? last.name = some e ∧ key ∈ e.alternateNames) ∨
        ¬ Stands operations last ∧ last.name ≠ d.name ∧ r.alternates[key]? = none)) ∧
    (∀ key, d.shortName = some key → ∃ last, LastWith operations .short key last ∧
      (Stands operations last ∧ (r.lookup key).isSome ∨
        ¬ Stands operations last ∧ last.name ≠ d.name ∧
          r.lookup key = (r.get? key).or (r.alternates[key]?.bind r.get?))) := by
  intro r
  have indexed : r.Indexed := (sound_after operations).indexed
  constructor
  next =>
    intro key has
    obtain ⟨last, lastWith, ⟨stands, entry⟩ | gone⟩ := index_of_known operations .alternate known has
    next => exact ⟨last, lastWith, .inl ⟨stands, entry, indexed.declared .alternate entry⟩⟩
    next => exact ⟨last, lastWith, .inr gone⟩
  next =>
    intro key short
    have has : key ∈ d.further .short := Option.mem_toList.mpr short
    obtain ⟨last, lastWith, ⟨stands, entry⟩ | ⟨gone, other, lost⟩⟩ := index_of_known operations .short known has
    next => exact ⟨last, lastWith, .inl ⟨stands, lookup_isSome_of_alias indexed entry⟩⟩
    next =>
      have unled : r.aliases[key]? = none := lost
      exact ⟨last, lastWith, .inr ⟨gone, other, by rw [lookup_eq, unled, Option.bind_none, Option.or_none]⟩⟩

theorem further_names_of_class_left_behind :
    let a : Descriptor := { name := "N.A", alternateNames := ["N.Z"], shortName := some "widget.a", sourceFile := "/a" }
    let b : Descriptor := { name := "N.B", alternateNames := ["N.Z"], sourceFile := "/b" }
    let operations := [.register a, .register b, .removeFile "/b"]
    (after operations).get? "N.A" = some a ∧
    (∃ last, LastWith operations .alternate "N.Z" last ∧ ¬ Stands operations last ∧ last.name ≠ "N.A" ∧
      (after operations).alternates["N.Z"]? = none) ∧
    ∃ last, LastWith operations .short "widget.a" last ∧ Stands operations last ∧
      ((after operations).lookup "widget.a").isSome := by
  -- The alternate name of a class was taken over by another class that is gone, its alias was not.
  intro a b operations
  have known : (after operations).get? a.name = some a := by decide +kernel
  have lost : (after operations).alternates["N.Z"]? = none := by decide +kernel
  have found : (after operations).lookup "widget.a" = some a := by decide +kernel
  have otherwise : ((after operations).get? "widget.a").or
      ((after operations).alternates["widget.a"]?.bind (after operations).get?) = none := by decide +kernel
  obtain ⟨alternates, shorts⟩ := further_names_found_while_last_stands operations known
  refine ⟨known, ?_, ?_⟩
  next =>
    obtain ⟨last, lastWith, ⟨_, entry, _⟩ | gone⟩ := alternates "N.Z" (by simp [a])
    next => cases lost.symm.trans entry
    next => exact ⟨last, lastWith, gone⟩
  next =>
    obtain ⟨last, lastWith, there | ⟨_, _, same⟩⟩ := shorts "widget.a" rfl
    next => exact ⟨last, lastWith, there⟩
    next => cases found.symm.trans (same.trans otherwise)

/-- A class is there and has an alternate name and an alias, but neither of them is found: another class had them too,
and was removed. -/
theorem names_lost_with_later_class :
    let a : Descriptor := { name := "N.A", alternateNames := ["N.Z"], shortName := some "widget.z", sourceFile := "/a" }
    let b : Descriptor := { name := "N.B", alternateNames := ["N.Z"], shortName := some "widget.z", sourceFile := "/b" }
    let r := after [.register a, .register b, .removeFile "/b"]
    r.get? "N.A" = some a ∧ r.alternates["N.Z"]? = none ∧ r.lookup "N.Z" = none ∧ r.lookup "widget.z" = none := by
  decide +kernel

end ClassLinker.Registry
