import ClassLinker.Imports.Walk
import ClassLinker.Proofs.DeclaredNames

set_option autoImplicit false

namespace ClassLinker

namespace Resolver

inductive Leads (alternates : Table String) : Nat → String → String → Prop where
  | here (name : String) : Leads alternates 0 name name
  | step {k : Nat} {name next last : String} :
    alternates[name]? = some next → Leads alternates k next last → Leads alternates (k + 1) name last

/-- Following `k` alternate names leads to a name that is none itself. -/
structure EndsAt (alternates : Table String) (k : Nat) (name last : String) : Prop where
  leads : Leads alternates k name last
  final : alternates[last]? = none

section
variable {alternates : Table String} {k n : Nat} {name next last : String}

theorem Leads.append {l : Nat} {middle : String} (first : Leads alternates k name middle)
    (second : Leads alternates l middle last) : Leads alternates (k + l) name last := by
  induction first with
  | here => rwa [Nat.zero_add]
  | step entry _ ih =>
    rw [Nat.succ_add]
    exact .step entry (ih second)

theorem EndsAt.of_none (final : alternates[name]? = none) (ends : EndsAt alternates k name last) :
    k = 0 ∧ last = name := by
  cases ends.leads with
  | here => exact ⟨rfl, rfl⟩
  | step entry _ => cases final.symm.trans entry

theorem EndsAt.of_some (entry : alternates[name]? = some next) (ends : EndsAt alternates k name last) :
    ∃ l, k = l + 1 ∧ EndsAt alternates l next last := by
  cases ends.leads with
  | here => cases entry.symm.trans ends.final
  | step entry' rest =>
    cases entry.symm.trans entry'
    exact ⟨_, rfl, rest, ends.final⟩

theorem EndsAt.unique {k' : Nat} {last' : String} (ends : EndsAt alternates k name last)
    (ends' : EndsAt alternates k' name last') : k = k' ∧ last = last' := by
  obtain ⟨leads, final⟩ := ends
  induction leads generalizing k' with
  | here =>
    obtain ⟨rfl, rfl⟩ := ends'.of_none final
    exact ⟨rfl, rfl⟩
  | step entry _ ih =>
    obtain ⟨l, rfl, rest⟩ := ends'.of_some entry
    obtain ⟨rfl, rfl⟩ := ih rest final
    exact ⟨rfl, rfl⟩

theorem exists_endsAt_of_none (final : alternates[name]? = none) :
    (∃ k ≤ n, EndsAt alternates k name last) ↔ last = name := by
  constructor
  next =>
    rintro ⟨k, _, ends⟩
    exact (ends.of_none final).2
  next =>
    rintro rfl
    exact ⟨0, Nat.zero_le n, .here last, final⟩

theorem exists_endsAt_of_some (entry : alternates[name]? = some next) :
    (∃ k ≤ n, EndsAt alternates k name last) ↔ n ≠ 0 ∧ ∃ k ≤ n - 1, EndsAt alternates k next last := by
  constructor
  next =>
    rintro ⟨k, within, ends⟩
    obtain ⟨l, rfl, rest⟩ := ends.of_some entry
    exact ⟨by omega, l, by omega, rest⟩
  next =>
    rintro ⟨filled, l, within, ends⟩
    exact ⟨l + 1, by omega, .step entry ends.leads, ends.final⟩

theorem follow_of_none (final : alternates[name]? = none) (chain : List String) :
    follow alternates n chain name = .ok name := by
  unfold follow
  rw [final]

theorem follow_of_some (entry : alternates[name]? = some next) (chain : List String) :
    follow alternates n chain name =
      if next ∈ chain ∨ n = 0 then .error (.aliasCycle (chain ++ [next]))
      else follow alternates (n - 1) (chain ++ [next]) next := by
  conv_lhs => unfold follow
  rw [entry]
  by_cases seen : next ∈ chain
  next => simp [seen]
  next => cases n <;> simp [seen]

theorem follow_total (n : Nat) (chain : List String) (name : String) :
    (∃ last, follow alternates n chain name = .ok last) ∨
      ∃ chain', follow alternates n chain name = .error (.aliasCycle chain') := by
  induction n generalizing chain name with
  | zero =>
    cases entry : alternates[name]? with
    | none => exact .inl ⟨name, follow_of_none entry chain⟩
    | some next => exact .inr ⟨chain ++ [next], by rw [follow_of_some entry, if_pos (.inr rfl)]⟩
  | succ n ih =>
    cases entry : alternates[name]? with
    | none => exact .inl ⟨name, follow_of_none entry chain⟩
    | some next =>
      rw [follow_of_some entry]
      split
      next => exact .inr ⟨chain ++ [next], rfl⟩
      next => exact ih (chain ++ [next]) next

theorem follow_eq_ok_iff {chain : List String} (led : ∀ seen ∈ chain, ∃ k, Leads alternates k seen name) :
    follow alternates n chain name = .ok last ↔ ∃ k ≤ n, EndsAt alternates k name last := by
  -- all names of the chain lead to the present one, and this stays so with every step
  induction n generalizing chain name with
  | zero =>
    cases entry : alternates[name]? with
    | none => rw [follow_of_none entry, exists_endsAt_of_none entry, Except.ok.injEq, eq_comm]
    | some next =>
      rw [follow_of_some entry, if_pos (.inr rfl), exists_endsAt_of_some entry]
      simp
  | succ n ih =>
    cases entry : alternates[name]? with
    | none => rw [follow_of_none entry, exists_endsAt_of_none entry, Except.ok.injEq, eq_comm]
    | some next =>
      rw [follow_of_some entry, exists_endsAt_of_some entry]
      by_cases seen : next ∈ chain
      next =>
        rw [if_pos (.inl seen)]
        refine iff_of_false (by simp) ?_
        rintro ⟨_, l, _, ends⟩
        -- if the names came back to one of the chain, they would end after two numbers of steps
        obtain ⟨k, back⟩ := led next seen
        have around := ends.unique ⟨back.append (.step entry ends.leads), ends.final⟩
        omega
      next =>
        rw [if_neg (by simp [seen])]
        have led' : ∀ other ∈ chain ++ [next], ∃ k, Leads alternates k other next := by
          intro other member
          rcases List.mem_append.mp member with before | own
          next =>
            obtain ⟨k, leads⟩ := led other before
            exact ⟨k + 1, leads.append (.step entry (.here next))⟩
          next =>
            obtain rfl := List.mem_singleton.mp own
            exact ⟨0, .here other⟩
        simpa using ih led'

theorem canonicalName_eq_ok_iff :
    canonicalName alternates name = .ok last ↔ ∃ k ≤ maxSteps, EndsAt alternates k name last := by
  apply follow_eq_ok_iff
  intro seen own
  obtain rfl := List.mem_singleton.mp own
  exact ⟨0, .here seen⟩

end

end Resolver

theorem Registry.Sound.exists_of_leads {r : Registry} (sound : r.Sound) {k : Nat} {name last : String}
    (leads : Resolver.Leads r.alternates k name last) (known : (r.get? name).isSome) : (r.get? last).isSome := by
  induction leads with
  | here => exact known
  | step entry _ ih =>
    -- an alternate name stands for a class that declares it
    obtain ⟨e, found, _⟩ := sound.indexed.declared .alternate entry
    exact ih (by rw [found, Option.isSome_some])

namespace Surroundings

theorem leadOfCanonical_of_known {s : Surroundings} {name : String} {d : Descriptor}
    (known : s.registry.get? name = some d) :
    s.leadOfCanonical name = if s.isDisabled name then .disabled else .paths [d.sourceFile] := by
  rw [leadOfCanonical, known]

/-- Whatever is registered, a class in a namespace that is not switched off is found in its file under its own name,
unless that name is an alternate one. Then the alternate names are followed first: if they end, then with a class,
which is found in its place, and if they do not end soon enough the name leads to no class. -/
theorem known_class_found_unless_redirected (operations : List Registry.Operation) (resolver : Resolver)
    (workspace : Workspace) (config : Config) {d : Descriptor}
    (known : (Registry.after operations).get? d.name = some d) :
    let s : Surroundings := ⟨Registry.after operations, resolver, workspace, config⟩
    s.isDisabled d.name = false →
    (s.registry.alternates[d.name]? = none → s.lead d.name = .paths [d.sourceFile]) ∧
    (∀ k ≤ 16, ∀ last, Resolver.EndsAt s.registry.alternates k d.name last →
      ∃ e, s.registry.get? last = some e ∧ e.name = last ∧
        s.lead d.name = if s.isDisabled last then .disabled else .paths [e.sourceFile]) ∧
    ((¬ ∃ k ≤ 16, ∃ last, Resolver.EndsAt s.registry.alternates k d.name last) →
      ∃ chain, s.lead d.name = .cycle (.aliasCycle chain)) := by
  intro s enabled
  have sound : s.registry.Sound := Registry.sound_after operations
  have ended (k : Nat) (within : k ≤ 16) (last : String) (ends : Resolver.EndsAt s.registry.alternates k d.name last) :
      ∃ e, s.registry.get? last = some e ∧ e.name = last ∧
        s.lead d.name = if s.isDisabled last then .disabled else .paths [e.sourceFile] := by
    obtain ⟨e, found⟩ := Option.isSome_iff_exists.mp
      (sound.exists_of_leads ends.leads (Option.isSome_iff_exists.mpr ⟨d, known⟩))
    refine ⟨e, found, sound.coherent.named found, ?_⟩
    rw [lead, Resolver.canonicalName_eq_ok_iff.mpr ⟨k, within, ends⟩]
    exact leadOfCanonical_of_known found
  refine ⟨?_, ended, ?_⟩
  next =>
    intro final
    obtain ⟨e, found, _, led⟩ := ended 0 (by decide) d.name ⟨.here d.name, final⟩
    cases known.symm.trans found
    rw [led, enabled, if_neg (by decide)]
  next =>
    intro endless
    rcases Resolver.follow_total Resolver.maxSteps [d.name] d.name with ⟨last, found⟩ | ⟨chain, failed⟩
    next =>
      obtain ⟨k, within, ends⟩ := Resolver.canonicalName_eq_ok_iff.mp found
      exact absurd ⟨k, within, last, ends⟩ endless
    next =>
      refine ⟨chain, ?_⟩
      rw [lead, Resolver.canonicalName, failed]

theorem classes_found_along_alternate_names :
    let a : Descriptor := { name := "N.A", sourceFile := "/a" }
    let b : Descriptor := { name := "N.B", alternateNames := ["N.A"], sourceFile := "/b" }
    let c : Descriptor := { name := "N.C", alternateNames := ["N.C"], sourceFile := "/c" }
    let s : Surroundings :=
      ⟨Registry.after [.register a, .register b, .register c], ⟨[⟨"M", .disabled⟩], ["js"]⟩, ⟨[]⟩, Config.default⟩
    s.lead b.name = .paths ["/b"] ∧
    (∃ e, s.registry.get? "N.B" = some e ∧ e.name = "N.B" ∧
      s.lead a.name = if s.isDisabled "N.B" then .disabled else .paths [e.sourceFile]) ∧
    ∃ chain, s.lead c.name = .cycle (.aliasCycle chain) := by
  -- The name of one class is an alternate name of another one, and that of a third one is its own alternate name.
  intro a b c s
  have known : s.registry.get? a.name = some a ∧ s.registry.get? b.name = some b ∧ s.registry.get? c.name = some c := by
    decide +kernel
  have enabled : s.isDisabled a.name = false ∧ s.isDisabled b.name = false ∧ s.isDisabled c.name = false := by
    decide +kernel
  have entries : s.registry.alternates[a.name]? = some b.name ∧ s.registry.alternates[b.name]? = none ∧
      s.registry.alternates[c.name]? = some c.name := by
    decide +kernel
  have ends : Resolver.EndsAt s.registry.alternates 1 a.name b.name := ⟨.step entries.1 (.here b.name), entries.2.1⟩
  have endless : ¬ ∃ k ≤ 16, ∃ last, Resolver.EndsAt s.registry.alternates k c.name last := by
    -- each step comes back to the name, so that an end would be reached after two numbers of steps
    rintro ⟨k, _, last, around⟩
    obtain ⟨l, rfl, rest⟩ := around.of_some entries.2.2
    have same := around.unique rest
    omega
  exact ⟨(known_class_found_unless_redirected _ _ _ _ known.2.1 enabled.2.1).1 entries.2.1,
    (known_class_found_unless_redirected _ _ _ _ known.1 enabled.1).2.1 1 (by decide) b.name ends,
    (known_class_found_unless_redirected _ _ _ _ known.2.2 enabled.2.2).2.2 endless⟩

/-- A class is looked for in the file of another one that has its name as an alternate name, though both are known. -/
theorem class_found_in_file_of_another :
    let a : Descriptor := { name := "N.A", sourceFile := "/a" }
    let b : Descriptor := { name := "N.B", alternateNames := ["N.A"], sourceFile := "/b" }
    let s : Surroundings := ⟨Registry.after [.register a, .register b], ⟨[], ["js"]⟩, ⟨[]⟩, Config.default⟩
    s.registry.get? a.name = some a ∧ s.isDisabled a.name = false ∧ s.lead a.name = .paths [b.sourceFile] ∧
      s.lead a.name ≠ .paths [a.sourceFile] := by
  intro a b s
  have known : s.registry.get? a.name = some a ∧ s.registry.get? b.name = some b := by decide +kernel
  have entries : s.registry.alternates[a.name]? = some b.name ∧ s.registry.alternates[b.name]? = none := by
    decide +kernel
  have led : s.lead a.name = .paths [b.sourceFile] := by
    rw [lead, Resolver.canonicalName_eq_ok_iff.mpr ⟨1, by decide, .step entries.1 (.here b.name), entries.2⟩]
    exact leadOfCanonical_of_known known.2
  refine ⟨known.1, rfl, led, ?_⟩
  rw [led]
  simp [a, b]

end Surroundings

end ClassLinker
