import ClassLinker.Proofs.AlternateNames

set_option autoImplicit false

namespace ClassLinker.Resolver

/-- Following alternate names from `name` breaks off at `last`, after the names `more`, of which `name` is the first.
Either `last` was met before, here or among the names `before`, or more than `n` steps lead to it. -/
@[mk_iff] structure BreaksOff (alternates : Table String) (n : Nat) (before : List String) (name : String)
    (more : List String) (last : String) : Prop where
  first : more.head? = some name
  linked : (more ++ [last]).IsChain fun a b => alternates[a]? = some b
  distinct : (before ++ more).Nodup
  within : more.length ≤ n + 1
  reason : last ∈ before ++ more ∨ more.length = n + 1

section
variable {alternates : Table String} {n : Nat} {before more : List String} {name next last : String}

theorem BreaksOff.entry (breaks : BreaksOff alternates n before name more last) :
    ∃ next, alternates[name]? = some next := by
  obtain ⟨rest, rfl⟩ := List.head?_eq_some_iff.mp breaks.first
  have linked := breaks.linked
  cases rest with
  | nil => exact ⟨last, (List.isChain_cons_cons.mp linked).1⟩
  | cons second rest => exact ⟨second, (List.isChain_cons_cons.mp linked).1⟩

theorem breaksOff_step_iff (entry : alternates[name]? = some next) (fresh : (before ++ [name]).Nodup) :
    BreaksOff alternates n before name more last ↔
      if next ∈ before ++ [name] ∨ n = 0 then more = [name] ∧ last = next
      else ∃ rest, more = name :: rest ∧ BreaksOff alternates (n - 1) (before ++ [name]) next rest last := by
  constructor
  next =>
    intro breaks
    obtain ⟨rest, rfl⟩ := List.head?_eq_some_iff.mp breaks.first
    have linked := breaks.linked
    have within := breaks.within
    have reason := breaks.reason
    cases rest with
    | nil =>
      obtain rfl : last = next := Option.some.inj ((List.isChain_cons_cons.mp linked).1.symm.trans entry)
      rw [if_pos (by simpa using reason)]
      exact ⟨rfl, rfl⟩
    | cons second rest =>
      obtain ⟨link, linked⟩ := List.isChain_cons_cons.mp linked
      obtain rfl : second = next := Option.some.inj (link.symm.trans entry)
      have distinct : ((before ++ [name]) ++ second :: rest).Nodup := by simpa using breaks.distinct
      have unseen : second ∉ before ++ [name] := fun seen =>
        List.disjoint_of_nodup_append distinct seen List.mem_cons_self
      simp only [List.length_cons] at within reason
      rw [if_neg (by simpa [unseen] using (by omega : n ≠ 0))]
      exact ⟨_, rfl, rfl, linked, distinct, by simp only [List.length_cons]; omega,
        reason.imp (by simp) fun long => by simp only [List.length_cons]; omega⟩
  next =>
    split
    next stops =>
      rintro ⟨rfl, rfl⟩
      exact ⟨rfl, by simpa using entry, fresh, by simp, by simpa using stops⟩
    next goes =>
      rintro ⟨rest, rfl, breaks⟩
      obtain ⟨tail, rfl⟩ := List.head?_eq_some_iff.mp breaks.first
      have within := breaks.within
      have filled : n ≠ 0 := fun none => goes (.inr none)
      exact ⟨rfl, List.isChain_cons_cons.mpr ⟨entry, breaks.linked⟩, by simpa using breaks.distinct,
        by simp only [List.length_cons] at within ⊢; omega,
        breaks.reason.imp (by simp) fun long => by simp only [List.length_cons] at long ⊢; omega⟩

theorem follow_eq_error_iff {problem : Problem} (fresh : (before ++ [name]).Nodup) :
    follow alternates n (before ++ [name]) name = .error problem ↔
      ∃ more last, problem = .aliasCycle (before ++ more ++ [last]) ∧ BreaksOff alternates n before name more last := by
  -- the names that were met stay distinct, for a step to one of them is the last one
  induction n using Nat.strongRecOn generalizing before name with
  | ind n ih =>
    cases entry : alternates[name]? with
    | none =>
      rw [follow_of_none entry]
      refine iff_of_false (by simp) ?_
      rintro ⟨more, last, _, breaks⟩
      obtain ⟨next, found⟩ := breaks.entry
      cases entry.symm.trans found
    | some next =>
      simp only [follow_of_some entry, breaksOff_step_iff entry fresh]
      split
      next =>
        constructor
        next =>
          intro failed
          exact ⟨[name], next, (Except.error.inj failed).symm, rfl, rfl⟩
        next =>
          rintro ⟨_, _, rfl, rfl, rfl⟩
          rfl
      next goes =>
        rw [not_or] at goes
        have fresh' : (before ++ [name] ++ [next]).Nodup :=
          fresh.append (List.nodup_singleton next) (List.disjoint_singleton.mpr goes.1)
        rw [ih (n - 1) (by omega) fresh']
        constructor
        next =>
          rintro ⟨rest, last, rfl, breaks⟩
          exact ⟨name :: rest, last, by simp, rest, rfl, breaks⟩
        next =>
          rintro ⟨_, last, rfl, rest, rfl, breaks⟩
          exact ⟨rest, last, by simp, breaks⟩

end

theorem canonicalName_eq_error_iff {alternates : Table String} {name : String} {problem : Problem} :
    canonicalName alternates name = .error problem ↔ ∃ earlier last,
      problem = .aliasCycle (earlier ++ [last]) ∧ BreaksOff alternates maxSteps [] name earlier last := by
  have fresh : ([] ++ [name]).Nodup := by simp
  exact follow_eq_error_iff fresh

theorem endsAt_iff {alternates : Table String} {k : Nat} {name last : String} :
    EndsAt alternates k name last ↔ Leads alternates k name last ∧ alternates[last]? = none :=
  ⟨fun ends => ⟨ends.leads, ends.final⟩, fun ⟨leads, final⟩ => ⟨leads, final⟩⟩

theorem canonicalName_of_canonicalName {alternates : Table String} {name last : String}
    (led : canonicalName alternates name = .ok last) : canonicalName alternates last = .ok last := by
  obtain ⟨_, _, ends⟩ := canonicalName_eq_ok_iff.mp led
  exact canonicalName_eq_ok_iff.mpr ⟨0, Nat.zero_le _, .here last, ends.final⟩

/-- For every table of alternate names and every name: a name is canonical if at most sixteen alternate names lead to it
and it is none itself. If there is no such name, the names that were met are reported. Each is an alternate name for the
next one, and only the last one was met before or is the eighteenth. A canonical name is its own canonical name. -/
theorem redirection_is_bounded_iteration (alternates : Table String) (name : String) :
    (∀ last, canonicalName alternates name = .ok last ↔
      ∃ k ≤ 16, Leads alternates k name last ∧ alternates[last]? = none) ∧
    (∀ problem, canonicalName alternates name = .error problem ↔
      ∃ earlier last, problem = .aliasCycle (earlier ++ [last]) ∧
        earlier.head? = some name ∧
        (earlier ++ [last]).IsChain (fun a b => alternates[a]? = some b) ∧
        earlier.Nodup ∧ (earlier ++ [last]).length ≤ 18 ∧
        (last ∈ earlier ∨ (earlier ++ [last]).length = 18)) ∧
    (canonicalName alternates name).bind (canonicalName alternates) = canonicalName alternates name := by
  refine ⟨fun last => ?_, fun problem => ?_, ?_⟩
  next =>
    rw [canonicalName_eq_ok_iff]
    exact exists_congr fun k => and_congr_right fun _ => endsAt_iff
  next =>
    rw [canonicalName_eq_error_iff]
    refine exists_congr fun earlier => exists_congr fun last => and_congr_right fun _ => ?_
    have within : (earlier ++ [last]).length ≤ 18 ↔ earlier.length ≤ maxSteps + 1 := by
      rw [List.length_append, List.length_singleton, maxSteps]
      omega
    have full : (earlier ++ [last]).length = 18 ↔ earlier.length = maxSteps + 1 := by
      rw [List.length_append, List.length_singleton, maxSteps]
      omega
    rw [breaksOff_iff, List.nil_append, within, full]
  next =>
    cases led : canonicalName alternates name with
    | error problem => rfl
    | ok last => exact canonicalName_of_canonicalName led

-- sixteen steps are made and seventeen are not; a name that comes back is reported at once
example :
    let numbered := Table.ofList ((List.range 17).map fun i => (toString i, toString (i + 1)))
    let circle := Table.ofList [("a", "b"), ("b", "c"), ("c", "b")]
    canonicalName numbered "1" = .ok "17" ∧
    canonicalName numbered "0" = .error (.aliasCycle ((List.range 18).map toString)) ∧
    canonicalName circle "a" = .error (.aliasCycle ["a", "b", "c", "b"]) := by
  decide +kernel

end ClassLinker.Resolver
