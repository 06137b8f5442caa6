import Mathlib.Data.List.Basic
import Mathlib.Data.List.Induction
import ClassLinker.Glob.Parser

set_option autoImplicit false

/-!
Globs read after a known start. The reading of a pattern looks at the parts at its bottom only to ask whether there
are any, so that a slash or a directory put in front of a pattern changes the bottom of what is read and nothing else.
-/

namespace ClassLinker

theorem bind_eq_ok {ε α β : Type} {first : Except ε α} {next : α → Except ε β} {b : β} :
    first.bind next = .ok b ↔ ∃ a, first = .ok a ∧ next a = .ok b := by
  cases first <;> simp [Except.bind]

namespace Glob

def recursed (part : Part) : List Part → List Part
  | .leading :: rest => .leading :: rest
  | .trailing :: rest => .trailing :: rest
  | parts => part :: parts.tail

theorem recursed_ne_nil (part : Part) {parts : List Part} (filled : parts ≠ []) : recursed part parts ≠ [] := by
  unfold recursed
  split <;> simp

/-- A change of parts, which are given last one first, that leaves alone what is put on top. -/
structure Deep (f : List Part → List Part) : Prop where
  push : ∀ {part : Part} (parts : List Part), part ≠ .leading → f (part :: parts) = part :: f parts
  filled : ∀ {parts : List Part}, parts ≠ [] → f parts ≠ []
  between : ∀ {parts : List Part}, parts ≠ [] → f (recursed .between parts) = recursed .between (f parts)

def deepParts (f : List Part → List Part) (groups : List OpenGroup) (parts : List Part) : List Part :=
  if groups.isEmpty then f parts else parts

@[simp] theorem deepParts_nil (f : List Part → List Part) (parts : List Part) : deepParts f [] parts = f parts := rfl

@[simp] theorem deepParts_cons (f : List Part → List Part) (group : OpenGroup) (groups : List OpenGroup)
    (parts : List Part) : deepParts f (group :: groups) parts = parts := rfl

def deepGroups (f : List Part → List Part) : List OpenGroup → List OpenGroup
  | [] => []
  | group :: groups => { group with outer := deepParts f groups group.outer } :: deepGroups f groups

@[simp] theorem isEmpty_deepGroups (f : List Part → List Part) (groups : List OpenGroup) :
    (deepGroups f groups).isEmpty = groups.isEmpty := by
  cases groups <;> rfl

namespace State

def deep (f : List Part → List Part) (s : State) : State where
  mode := s.mode
  previous := s.previous
  parts := deepParts f s.groups s.parts
  groups := deepGroups f s.groups

def Filled (s : State) : Prop := s.groups = [] → s.parts ≠ []

/-- Something has been read, or is being read. Stars that come first are not yet anything. -/
def Ready (s : State) : Prop :=
  match s.mode with
  | .plain | .star _ | .stars _ => s.Filled
  | .escaped | .classStart | .classBody _ => True

theorem recurse_eq (s : State) (part : Part) : s.recurse part = { s with parts := recursed part s.parts } := by
  unfold recurse recursed
  obtain ⟨mode, previous, parts, groups⟩ := s
  cases parts with
  | nil => rfl
  | cons top parts => cases top <;> rfl

def special : List Char := ['?', '*', '[', '\\', '\x7b', '\x7d', ',']

theorem plain_of_ordinary (s : State) {c : Char} (ordinary : c ∉ special) :
    s.plain c = .ok ({ s with mode := .plain, previous := some c }.push (.literal c)) := by
  simp only [special, List.mem_cons, List.not_mem_nil, not_or] at ordinary
  unfold plain
  split <;> simp_all

theorem step_stars {s : State} {before : Option Char} (stars : s.mode = .stars before) (c : Char) :
    s.step c =
      if (s.closeStars before (some c)).2 then
        .ok { (s.closeStars before (some c)).1 with mode := .plain, previous := some c }
      else (s.closeStars before (some c)).1.plain c := by
  unfold step
  rw [stars]

section
variable {f : List Part → List Part} (deepens : Deep f)
include deepens

theorem deepParts_push (groups : List OpenGroup) {part : Part} (parts : List Part) (other : part ≠ .leading) :
    deepParts f groups (part :: parts) = part :: deepParts f groups parts := by
  unfold deepParts
  split
  next => exact deepens.push parts other
  next => rfl

theorem deep_push (s : State) {part : Part} (other : part ≠ .leading) : (s.push part).deep f = (s.deep f).push part := by
  simp only [deep, push, deepParts_push deepens _ _ other]

theorem plain_deep (s : State) (c : Char) : (s.deep f).plain c = (s.plain c).map (deep f) := by
  by_cases ordinary : c ∉ special
  next =>
    rw [plain_of_ordinary _ ordinary, plain_of_ordinary _ ordinary, Except.map, deep_push deepens _ (by simp)]
    rfl
  next =>
    obtain ⟨mode, previous, parts, groups⟩ := s
    simp only [special, List.mem_cons, List.not_mem_nil, or_false, not_not] at ordinary
    -- only braces and commas look at the groups, and of these only the one at the bottom changes
    rcases ordinary with rfl | rfl | rfl | rfl | rfl | rfl | rfl <;>
      cases groups <;>
      simp [plain, deep, deepGroups, push, Except.map, deepParts_push deepens]

theorem closeStars_deep {s : State} (ready : s.Filled) (before : Option Char) (c : Char) :
    (s.deep f).closeStars before (some c) =
      ((s.closeStars before (some c)).1.deep f, (s.closeStars before (some c)).2) := by
  obtain ⟨mode, previous, parts, groups⟩ := s
  cases groups with
  | nil =>
    have filled : parts ≠ [] := ready rfl
    have twice : f (.star :: .star :: parts) = .star :: .star :: f parts := by
      rw [deepens.push _ (by simp), deepens.push _ (by simp)]
    by_cases slash : before = some '/'
    next =>
      by_cases same : c = '/'
      next =>
        simp [closeStars, deep, deepGroups, recurse_eq, slash, same, filled, deepens.filled filled,
          deepens.between filled]
      next =>
        simp [closeStars, deep, deepGroups, push, slash, filled, deepens.filled filled, twice]
    next => simp [closeStars, deep, deepGroups, push, slash, filled, deepens.filled filled, twice]
  | cons group groups =>
    have grouped (parts' : List Part) : deep f ⟨mode, previous, parts', group :: groups⟩ =
        ⟨mode, previous, parts', deepGroups f (group :: groups)⟩ := rfl
    simp only [closeStars, grouped, isEmpty_deepGroups, push, recurse_eq, List.isEmpty_cons]
    repeat' split
    all_goals simp only [grouped]

theorem member_deep (s : State) (draft : ClassDraft) (c : Char) :
    (s.deep f).member draft c = (s.member draft c).map (deep f) := by
  simp only [member, deep, push]
  repeat' split
  all_goals simp [Except.map, deep, deepParts_push deepens]

theorem step_deep {s : State} (ready : s.Ready) (c : Char) : (s.deep f).step c = (s.step c).map (deep f) := by
  obtain ⟨mode, previous, parts, groups⟩ := s
  cases mode with
  | plain => exact plain_deep deepens _ c
  | escaped =>
    have pushed := deep_push deepens ⟨.plain, some c, parts, groups⟩ (by simp : Part.literal c ≠ .leading)
    exact congrArg Except.ok pushed.symm
  | star before =>
    simp only [step, deep]
    split
    next => rfl
    next =>
      have pushed := deep_push deepens ⟨.star before, previous, parts, groups⟩ (by simp : Part.star ≠ .leading)
      rw [← plain_deep deepens, pushed]
      rfl
  | stars before =>
    have closed := closeStars_deep deepens (s := ⟨.stars before, previous, parts, groups⟩) ready before c
    rw [step_stars rfl, step_stars rfl, closed]
    simp only
    split
    next => rfl
    next => exact plain_deep deepens _ c
  | classStart =>
    simp only [step, deep]
    split
    next => rfl
    next => exact member_deep deepens ⟨.classStart, some c, parts, groups⟩ _ c
  | classBody draft => exact member_deep deepens ⟨.classBody draft, some c, parts, groups⟩ draft c

end

theorem Filled.ready {s : State} (filled : s.Filled) : s.Ready := by
  unfold Ready
  split <;> first | exact filled | trivial

theorem Ready.filled {s : State} (ready : s.Ready) {before : Option Char} (stars : s.mode = .stars before) :
    s.Filled := by
  unfold Ready at ready
  rwa [stars] at ready

theorem filled_push (s : State) (part : Part) : (s.push part).Filled := by
  simp [Filled, push]

theorem plain_cases {s s' : State} {c : Char} (read : s.plain c = .ok s') :
    (∃ part, part ≠ .between ∧ s'.parts = part :: s.parts) ∨
      ((c = '*' ∧ s'.mode = .star s.previous ∨ s'.mode = .escaped ∨ s'.mode = .classStart) ∧
        s'.parts = s.parts ∧ s'.groups = s.groups) ∨
      (s'.parts = [] ∧ s'.groups ≠ []) ∨ ∃ branches outer, s'.parts = .alternatives branches :: outer := by
  by_cases ordinary : c ∉ special
  next =>
    rw [plain_of_ordinary _ ordinary] at read
    cases read
    exact .inl ⟨.literal c, by simp, rfl⟩
  next =>
    obtain ⟨mode, previous, parts, groups⟩ := s
    simp only [special, List.mem_cons, List.not_mem_nil, or_false, not_not] at ordinary
    rcases ordinary with rfl | rfl | rfl | rfl | rfl | rfl | rfl <;> rcases groups with _ | ⟨group, groups⟩ <;>
      cases read <;> simp [push]

theorem Filled.plain {s s' : State} (filled : s.Filled) {c : Char} (read : s.plain c = .ok s') : s'.Filled := by
  intro none
  rcases plain_cases read with ⟨part, _, pushed⟩ | ⟨_, parts, groups⟩ | ⟨_, grouped⟩ | ⟨branches, outer, closed⟩
  next => simp [pushed]
  next => exact parts ▸ filled (groups ▸ none)
  next => exact absurd none grouped
  next => simp [closed]

theorem Filled.closeStars {s : State} (filled : s.Filled) (before : Option Char) (c : Char) :
    (s.closeStars before (some c)).1.Filled := by
  have more (part : Part) : (s.recurse part).Filled := by
    rw [recurse_eq]
    intro none
    exact recursed_ne_nil part (filled none)
  unfold State.closeStars
  simp only
  repeat' split
  all_goals first | exact filled_push _ _ | exact more _

theorem member_cases {s s' : State} {draft : ClassDraft} {c : Char} (read : s.member draft c = .ok s') :
    (∃ negated ranges, s'.parts = .oneOf negated ranges :: s.parts) ∨ ∃ draft', s'.mode = .classBody draft' := by
  unfold member at read
  simp only at read
  repeat' split at read
  all_goals cases read
  next => exact .inl ⟨_, _, rfl⟩
  next => exact .inl ⟨_, _, rfl⟩
  all_goals exact .inr ⟨_, rfl⟩

theorem slash_of_closeStars {s : State} {before : Option Char} {c : Char}
    (taken : (s.closeStars before (some c)).2 = true) : c = '/' := by
  unfold closeStars at taken
  simp only at taken
  repeat' split at taken
  all_goals simp_all

inductive Steps (s : State) (c : Char) (s' : State) : Prop where
  | plain {place : State} (filled : s.Ready → place.Filled) (read : place.plain c = .ok s')
  | stars {before : Option Char} (mode : s'.mode = .stars before) (filled : s.Ready → s'.Filled)
  | slash (slash : c = '/') (filled : s.Ready → s'.Filled)
  | inClass {draft : ClassDraft} (mode : s'.mode = .classBody draft)
  | single {part : Part} {rest : List Part} (other : part ≠ .between) (parts : s'.parts = part :: rest)

theorem steps_of_step {s s' : State} {c : Char} (read : s.step c = .ok s') : Steps s c s' := by
  obtain ⟨mode, previous, parts, groups⟩ := s
  have member {draft : ClassDraft} {place : State} (read : place.member draft c = .ok s') :
      Steps ⟨mode, previous, parts, groups⟩ c s' := by
    rcases member_cases read with ⟨negated, ranges, pushed⟩ | ⟨draft', mode⟩
    next => exact .single (by simp) pushed
    next => exact .inClass mode
  cases mode with
  | plain => exact .plain id read
  | escaped =>
    cases read
    exact .single (by simp) rfl
  | star before =>
    simp only [step] at read
    split at read
    next =>
      cases read
      exact .stars rfl id
    next => exact .plain (fun _ => filled_push _ _) read
  | stars before =>
    rw [step_stars rfl] at read
    split at read
    next taken =>
      cases read
      exact .slash (slash_of_closeStars taken) fun ready => Filled.closeStars ready before c
    next => exact .plain (fun ready => Filled.closeStars ready before c) read
  | classStart =>
    simp only [step] at read
    split at read
    next =>
      cases read
      exact .inClass rfl
    next => exact member read
  | classBody draft => exact member read

theorem Ready.step {s s' : State} (ready : s.Ready) {c : Char} (read : s.step c = .ok s') : s'.Ready := by
  cases steps_of_step read with
  | plain filled read => exact ((filled ready).plain read).ready
  | stars _ filled => exact (filled ready).ready
  | slash _ filled => exact (filled ready).ready
  | inClass mode => simp [Ready, mode]
  | single _ parts => exact Filled.ready fun _ => by simp [parts]

theorem step_head {s s' : State} {c : Char} (read : s.step c = .ok s') (other : c ≠ '/') (plain : s'.mode = .plain) :
    s'.parts.head? ≠ some .between := by
  cases steps_of_step read with
  | plain _ read =>
    rcases plain_cases read with ⟨part, single, pushed⟩ | ⟨mode, _⟩ | ⟨none, _⟩ | ⟨branches, outer, closed⟩
    next => simpa [pushed] using single
    next => simp [plain] at mode
    next => simp [none]
    next => simp [closed]
  | stars mode => simp [plain] at mode
  | slash slash => exact absurd slash other
  | inClass mode => simp [plain] at mode
  | single single parts => simpa [parts] using single

theorem run_deep {f : List Part → List Part} (deepens : Deep f) {s : State} (ready : s.Ready) (cs : List Char) :
    cs.foldlM step (s.deep f) = (cs.foldlM step s).map (deep f) := by
  induction cs generalizing s with
  | nil => rfl
  | cons c cs ih =>
    rw [List.foldlM_cons, List.foldlM_cons, step_deep deepens ready]
    cases read : s.step c with
    | error fault => rfl
    | ok s' => exact ih (ready.step read)

theorem Ready.run {s s' : State} (ready : s.Ready) {cs : List Char} (read : cs.foldlM State.step s = .ok s') :
    s'.Ready := by
  induction cs generalizing s with
  | nil =>
    cases read
    exact ready
  | cons c cs ih =>
    obtain ⟨next, first, rest⟩ := bind_eq_ok.mp read
    exact ih (ready.step first) rest

def closed (s : State) : List Part :=
  match s.mode with
  | .star _ => .star :: s.parts
  | .stars before => (s.closeStars before none).1.parts
  | _ => s.parts

theorem groups_closeStars (s : State) (before next : Option Char) : (s.closeStars before next).1.groups = s.groups := by
  simp only [closeStars, recurse_eq, push]
  repeat' split
  all_goals rfl

theorem finish_eq (s : State) : s.finish =
    match s.mode with
    | .escaped => .error .danglingEscape
    | .classStart | .classBody _ => .error .unclosedClass
    | _ => if s.groups.isEmpty then .ok ⟨s.closed.reverse⟩ else .error .unclosedGroup := by
  obtain ⟨mode, previous, parts, groups⟩ := s
  cases mode with
  | stars before =>
    have kept := groups_closeStars ⟨.stars before, previous, parts, groups⟩ before none
    simp only [finish, closed, bind, Except.bind, kept]
    rfl
  | plain => rfl
  | escaped => rfl
  | star before => rfl
  | classStart => rfl
  | classBody draft => rfl

theorem closed_deep {f : List Part → List Part} (deepens : Deep f) {s : State} (ready : s.Ready)
    (outermost : s.groups = [])
    (closing : s.mode = .stars (some '/') → f (recursed .trailing s.parts) = recursed .trailing (f s.parts)) :
    (s.deep f).closed = f s.closed := by
  obtain ⟨mode, previous, parts, groups⟩ := s
  subst outermost
  cases mode with
  | star before => exact (deepens.push parts (by simp)).symm
  | stars before =>
    have filled : parts ≠ [] := ready rfl
    have twice : f (.star :: .star :: parts) = .star :: .star :: f parts := by
      rw [deepens.push _ (by simp), deepens.push _ (by simp)]
    by_cases slash : before = some '/'
    next =>
      have same := closing (by rw [slash])
      simp [closed, closeStars, deep, deepGroups, recurse_eq, slash, filled, deepens.filled filled, same]
    next => simp [closed, closeStars, deep, deepGroups, push, slash, filled, deepens.filled filled, twice]
  | plain => rfl
  | escaped => rfl
  | classStart => rfl
  | classBody draft => rfl

theorem finish_deep {f : List Part → List Part} (deepens : Deep f) {s : State} (ready : s.Ready)
    (closing : s.mode = .stars (some '/') → s.groups = [] →
      f (recursed .trailing s.parts) = recursed .trailing (f s.parts)) :
    (s.deep f).finish = s.finish.map fun g => ⟨(f g.parts.reverse).reverse⟩ := by
  have mode : (s.deep f).mode = s.mode := rfl
  have groups : (s.deep f).groups.isEmpty = s.groups.isEmpty := isEmpty_deepGroups f s.groups
  rw [finish_eq, finish_eq, mode, groups]
  cases outermost : s.groups.isEmpty with
  | false => cases s.mode <;> rfl
  | true =>
    rw [List.isEmpty_iff] at outermost
    have closed := closed_deep deepens ready outermost fun stars => closing stars outermost
    rw [closed]
    cases s.mode <;> simp [Except.map]

end State

open State

theorem parse_ofList (cs : List Char) :
    parse (String.ofList cs) = (cs.foldlM step start).bind finish := by
  rw [parse, String.toList_ofList]
  rfl

def rooted : List Part → List Part
  | .leading :: parts => .between :: parts
  | parts => .literal '/' :: parts

def rootedBelow : List Part → List Part
  | [] => [.literal '/']
  | [.leading] => [.between]
  | part :: parts => part :: rootedBelow parts

theorem rootedBelow_cons {part : Part} {parts : List Part} (more : ¬(part = .leading ∧ parts = [])) :
    rootedBelow (part :: parts) = part :: rootedBelow parts := by
  cases parts with
  | nil =>
    cases part with
    | leading => exact absurd ⟨rfl, rfl⟩ more
    | _ => rfl
  | cons next parts => cases part <;> rfl

theorem reverse_rootedBelow (parts : List Part) : (rootedBelow parts).reverse = rooted parts.reverse := by
  induction parts with
  | nil => rfl
  | cons part parts ih =>
    by_cases last : part = .leading ∧ parts = []
    next =>
      obtain ⟨rfl, rfl⟩ := last
      rfl
    next =>
      rw [rootedBelow_cons last, List.reverse_cons, List.reverse_cons, ih]
      cases below : parts.reverse with
      | nil =>
        cases part with
        | leading => exact absurd ⟨rfl, by simpa using below⟩ last
        | _ => rfl
      | cons first more => cases first <;> rfl

theorem rootedBelow_recursed {part : Part} {parts : List Part} (other : part ≠ .leading) (filled : parts ≠ [])
    (more : part = .between ∨ parts ≠ [.leading]) :
    rootedBelow (recursed part parts) = recursed part (rootedBelow parts) := by
  -- Only where two stars are all that was read, a slash before them makes a difference for more stars.
  cases parts with
  | nil => exact absurd rfl filled
  | cons top parts =>
    by_cases last : top = .leading ∧ parts = []
    next =>
      obtain ⟨rfl, rfl⟩ := last
      have same : part = .between := more.resolve_right (by simp)
      rw [same]
      rfl
    next =>
      have pushed : rootedBelow (part :: parts) = part :: rootedBelow parts := rootedBelow_cons fun h => other h.1
      rw [rootedBelow_cons last]
      cases top with
      | leading => exact rootedBelow_cons last
      | trailing => exact rootedBelow_cons last
      | _ => exact pushed

theorem deep_rootedBelow : Deep rootedBelow where
  push parts other := rootedBelow_cons fun h => other h.1
  filled := by
    intro parts _
    unfold rootedBelow
    split <;> simp
  between filled := rootedBelow_recursed (by simp) filled (.inl rfl)

/-- How the readings of a pattern without and with a slash before it are related. Two stars alone stand for all that
is below the slash. -/
def Roots (bare slashed : Except Fault Glob) : Prop :=
  slashed = bare.map (fun g => ⟨rooted g.parts⟩) ∨ bare = .ok ⟨[.leading]⟩ ∧ slashed = .ok ⟨[.trailing]⟩

theorem roots_finish {s : State} (ready : s.Ready) : Roots s.finish (s.deep rootedBelow).finish := by
  by_cases alone : s.mode = .stars (some '/') ∧ s.groups = [] ∧ s.parts = [.leading]
  next =>
    obtain ⟨mode, previous, parts, groups⟩ := s
    obtain ⟨rfl, rfl, rfl⟩ := alone
    exact .inr ⟨rfl, rfl⟩
  next =>
    left
    rw [finish_deep deep_rootedBelow ready]
    next => simp only [reverse_rootedBelow, List.reverse_reverse]
    next =>
      intro stars outermost
      exact rootedBelow_recursed (by simp) (ready.filled stars outermost) (.inr fun single => alone ⟨stars, outermost, single⟩)

theorem roots_run {s : State} (ready : s.Ready) (cs : List Char) :
    Roots ((cs.foldlM step s).bind finish) ((cs.foldlM step (s.deep rootedBelow)).bind finish) := by
  rw [run_deep deep_rootedBelow ready]
  cases read : cs.foldlM step s with
  | error fault => exact .inl rfl
  | ok s' => exact roots_finish (ready.run read)

theorem roots_step {s t : State} {c : Char} (same : t.step c = (s.step c).map (deep rootedBelow))
    (ready : ∀ s', s.step c = .ok s' → s'.Ready) (cs : List Char) :
    Roots (((c :: cs).foldlM step s).bind finish) (((c :: cs).foldlM step t).bind finish) := by
  -- The readings are related if they are after one more character.
  rw [List.foldlM_cons, List.foldlM_cons, same]
  cases read : s.step c with
  | error fault => exact .inl rfl
  | ok s' => exact roots_run (ready s' read) cs

theorem roots_plain {s t : State} {c : Char} (place : State) (read : s.step c = place.plain c)
    (read' : t.step c = (place.deep rootedBelow).plain c) (filled : place.Filled) (cs : List Char) :
    Roots (((c :: cs).foldlM step s).bind finish) (((c :: cs).foldlM step t).bind finish) := by
  apply roots_step
  next => rw [read, read', plain_deep deep_rootedBelow]
  next => exact fun s' found => (filled.plain (read ▸ found)).ready

theorem plain_previous (s : State) (previous : Option Char) {c : Char} (other : c ≠ '*') :
    { s with previous }.plain c = s.plain c := by
  unfold State.plain
  split <;> simp_all

theorem ready_start {s : State} {c : Char} (other : c ≠ '*') (read : start.plain c = .ok s) : s.Ready := by
  rcases plain_cases read with ⟨part, _, pushed⟩ | ⟨mode, _⟩ | ⟨_, grouped⟩ | ⟨branches, outer, closed⟩
  next => exact Filled.ready fun _ => by simp [pushed]
  next =>
    rcases mode with ⟨star, _⟩ | mode | mode
    next => exact absurd star other
    next => simp [Ready, mode]
    next => simp [Ready, mode]
  next => exact Filled.ready fun none => absurd none grouped
  next => exact Filled.ready fun _ => by simp [closed]

theorem roots_stars (cs : List Char) :
    Roots ((cs.foldlM step ⟨.stars none, some '*', [], []⟩).bind finish)
      ((cs.foldlM step ⟨.stars (some '/'), some '*', [.literal '/'], []⟩).bind finish) := by
  cases cs with
  | nil => exact .inr ⟨rfl, rfl⟩
  | cons c cs =>
    by_cases slash : c = '/'
    next =>
      -- the slash belongs to the stars: components at the start on one side, between slashes on the other
      subst slash
      exact roots_run (s := ⟨.plain, some '/', [.leading], []⟩) (by simp [Ready, Filled]) cs
    next =>
      apply roots_plain ⟨.stars none, some '*', [.star, .star], []⟩
      next => simp [step, closeStars, push, slash]
      next =>
        have closed : closeStars ⟨.stars (some '/'), some '*', [.literal '/'], []⟩ (some '/') (some c) =
            (⟨.stars (some '/'), some '*', [.star, .star, .literal '/'], []⟩, false) := by
          simp [closeStars, push]
        rw [step_stars rfl, closed]
        rfl
      next => simp [Filled]

theorem roots_star (cs : List Char) :
    Roots ((cs.foldlM step ⟨.star none, some '*', [], []⟩).bind finish)
      ((cs.foldlM step ⟨.star (some '/'), some '*', [.literal '/'], []⟩).bind finish) := by
  cases cs with
  | nil => exact .inl rfl
  | cons c cs =>
    by_cases star : c = '*'
    next =>
      subst star
      exact roots_stars cs
    next =>
      apply roots_plain ⟨.star none, some '*', [.star], []⟩
      next => exact if_neg star
      next => exact if_neg star
      next => simp [Filled]

theorem parse_slash (cs : List Char) : Roots (parse (String.ofList cs)) (parse (String.ofList ('/' :: cs))) := by
  rw [parse_ofList, parse_ofList]
  change Roots ((cs.foldlM step start).bind finish)
    ((cs.foldlM step ⟨.plain, some '/', [.literal '/'], []⟩).bind finish)
  -- stars at the start are the only thing that the slash has to do with
  cases cs with
  | nil => exact .inl rfl
  | cons c cs =>
    by_cases star : c = '*'
    next =>
      subst star
      exact roots_star cs
    next =>
      apply roots_step
      next =>
        have read : State.step ⟨.plain, some '/', [.literal '/'], []⟩ c = (start.deep rootedBelow).plain c :=
          plain_previous (start.deep rootedBelow) (some '/') star
        rw [read, plain_deep deep_rootedBelow]
        rfl
      next => exact fun s found => ready_start star found

theorem bytes_cons_slash (cs : List Char) : bytes ('/' :: cs) = slash :: bytes cs := rfl

theorem accepts_eq {parts : List Part} (other : parts ≠ [.leading]) (path : String) :
    (Glob.mk parts).accepts path = (restsOf parts (bytes path.toList)).contains [] := by
  unfold accepts
  split
  next alone => exact absurd alone other
  next => rfl

theorem restsOf_rooted (parts : List Part) (text : List UInt8) :
    restsOf (rooted parts) (slash :: text) = restsOf parts text := by
  unfold rooted
  split
  next => simp [restsOf, Part.rests]
  next =>
    have first : (Part.literal '/').rests (slash :: text) = [text] := by
      rw [Part.rests, List.isPrefixOf?_eq_some_iff_append_eq.mpr (rfl : _ ++ text = slash :: text)]
      rfl
    simp [restsOf, first]

theorem accepts_rooted {parts : List Part} (other : parts ≠ [.leading]) (cs : List Char) :
    (Glob.mk (rooted parts)).accepts (String.ofList ('/' :: cs)) = (Glob.mk parts).accepts (String.ofList cs) := by
  have other' : rooted parts ≠ [.leading] := by
    unfold rooted
    split <;> simp
  rw [accepts_eq other, accepts_eq other', String.toList_ofList, String.toList_ofList, bytes_cons_slash, restsOf_rooted]

theorem nil_mem_tails (text : List UInt8) : [] ∈ tails text := by
  induction text with
  | nil => simp [tails]
  | cons b text ih => simp [tails, ih]

theorem accepts_trailing (cs : List Char) : (Glob.mk [.trailing]).accepts (String.ofList ('/' :: cs)) = true := by
  have member := nil_mem_tails (bytes cs)
  rw [accepts_eq (by simp), String.toList_ofList, bytes_cons_slash]
  simpa [restsOf, Part.rests] using member

theorem head_recursed {part : Part} (other : part ≠ .between) (parts : List Part) :
    (recursed part parts).head? ≠ some .between := by
  unfold recursed
  split
  next => simp
  next => simp
  next => simpa using other

theorem head_closeStars (s : State) (before : Option Char) :
    (s.closeStars before none).1.parts.head? ≠ some .between := by
  have trailing := head_recursed (by simp : Part.trailing ≠ .between) s.parts
  simp only [closeStars, recurse_eq, push]
  repeat' split
  all_goals first | exact trailing | simp

theorem parts_of_finish {s : State} {g : Glob} (finished : s.finish = .ok g) : g.parts = s.closed.reverse := by
  rw [finish_eq] at finished
  repeat' split at finished
  all_goals cases finished
  rfl

theorem head_closed {s : State} (plain : s.mode = .plain → s.parts.head? ≠ some .between) {g : Glob}
    (finished : s.finish = .ok g) : s.closed.head? ≠ some .between := by
  rw [finish_eq] at finished
  unfold closed
  cases mode : s.mode with
  | plain => exact plain mode
  | star before => simp
  | stars before => exact head_closeStars s before
  | escaped =>
    rw [mode] at finished
    cases finished
  | classStart =>
    rw [mode] at finished
    cases finished
  | classBody draft =>
    rw [mode] at finished
    cases finished

theorem getLast?_parse {cs : List Char} {g : Glob} (parsed : parse (String.ofList cs) = .ok g)
    (ends : cs.getLast? ≠ some '/') : g.parts.getLast? ≠ some .between := by
  rw [parse_ofList] at parsed
  obtain ⟨final, read, finished⟩ := bind_eq_ok.mp parsed
  rw [parts_of_finish finished, List.getLast?_reverse]
  apply head_closed _ finished
  -- only the last character matters, whatever was read before it
  induction cs using List.reverseRecOn with
  | nil =>
    cases read
    simp [start]
  | append_singleton cs c _ =>
    have other : c ≠ '/' := by simpa using ends
    rw [List.foldlM_append] at read
    obtain ⟨s, _, last⟩ := bind_eq_ok.mp read
    obtain ⟨s', last, same⟩ := bind_eq_ok.mp last
    cases same
    exact step_head last other

theorem accepts_slash {cs : List Char} {g : Glob} (parsed : parse (String.ofList cs) = .ok g)
    (ends : cs.getLast? ≠ some '/') :
    ∃ g', parse (String.ofList ('/' :: cs)) = .ok g' ∧
      ∀ path : List Char, g'.accepts (String.ofList ('/' :: path)) = g.accepts (String.ofList path) := by
  rcases parse_slash cs with below | ⟨alone, all⟩
  next =>
    rw [parsed] at below
    -- two stars and a slash alone would end with that slash
    have other : g.parts ≠ [.leading] := by
      intro alone
      have last : ('/' :: cs).getLast? ≠ some '/' := by
        cases cs with
        | nil =>
          cases parsed
          cases alone
        | cons c cs => simpa using ends
      apply getLast?_parse below last
      change (rooted g.parts).getLast? = some .between
      rw [alone]
      rfl
    exact ⟨_, below, accepts_rooted other⟩
  next =>
    rw [parsed] at alone
    cases alone
    exact ⟨_, all, fun path => accepts_trailing path⟩

def opening : List Char := ['?', '*', '[', '\\', '\x7b']

theorem plain_outermost {c : Char} (literal : c ∉ opening) (previous : Option Char) (parts : List Part) :
    State.plain ⟨.plain, previous, parts, []⟩ c = .error .unopenedGroup ∨
      State.plain ⟨.plain, previous, parts, []⟩ c = .ok ⟨.plain, some c, .literal c :: parts, []⟩ := by
  by_cases ordinary : c ∉ special
  next => exact .inr (plain_of_ordinary _ ordinary)
  next =>
    have brace : c = '\x7d' ∨ c = ',' := by
      simp only [special, opening, List.mem_cons, List.not_mem_nil, or_false, not_or] at ordinary literal
      tauto
    rcases brace with rfl | rfl
    next => exact .inl rfl
    next => exact .inr rfl

theorem run_literal {cs : List Char} (literal : ∀ c ∈ cs, c ∉ opening) {previous : Option Char} {parts : List Part}
    {s : State} (read : cs.foldlM step ⟨.plain, previous, parts, []⟩ = .ok s) :
    ∃ previous', s = ⟨.plain, previous', (cs.map .literal).reverse ++ parts, []⟩ := by
  induction cs generalizing previous parts with
  | nil =>
    cases read
    exact ⟨previous, rfl⟩
  | cons c cs ih =>
    obtain ⟨next, first, rest⟩ := bind_eq_ok.mp read
    rcases plain_outermost (literal c List.mem_cons_self) previous parts with failed | pushed
    next => cases failed.symm.trans first
    next =>
      cases pushed.symm.trans first
      obtain ⟨previous', same⟩ := ih (fun d member => literal d (List.mem_cons_of_mem _ member)) rest
      exact ⟨previous', by simp [same]⟩

theorem recursed_append (part : Part) {parts : List Part} (filled : parts ≠ []) (below : List Part) :
    recursed part parts ++ below = recursed part (parts ++ below) := by
  cases parts with
  | nil => exact absurd rfl filled
  | cons top parts => cases top <;> rfl

theorem deep_append (below : List Part) : Deep (· ++ below) where
  push _ _ := rfl
  filled filled := by simp [filled]
  between filled := recursed_append .between filled below

theorem parse_below {front rest : List Char} {g : Glob} (literal : ∀ c ∈ front, c ∉ opening)
    (parsed : parse (String.ofList (front ++ '/' :: rest)) = .ok g) :
    ∃ g', parse (String.ofList ('/' :: rest)) = .ok g' ∧ g.parts = front.map .literal ++ g'.parts := by
  rw [parse_ofList] at parsed ⊢
  obtain ⟨final, read, finished⟩ := bind_eq_ok.mp parsed
  rw [List.foldlM_append] at read
  obtain ⟨s, first, read⟩ := bind_eq_ok.mp read
  obtain ⟨previous, rfl⟩ := run_literal literal first
  rw [List.append_nil] at read
  -- the reading of the rest alone has the same parts, without those of the directory at the bottom
  let slash : State := ⟨.plain, some '/', [.literal '/'], []⟩
  have ready : slash.Ready := by simp [slash, Ready, Filled]
  have deepens := deep_append (front.map .literal).reverse
  have deep : (rest.foldlM step slash).map (deep (· ++ (front.map .literal).reverse)) = .ok final :=
    (run_deep deepens ready rest).symm.trans read
  cases after : rest.foldlM step slash with
  | error fault =>
    rw [after] at deep
    cases deep
  | ok s =>
    rw [after] at deep
    cases deep
    have known := ready.run after
    rw [finish_deep deepens known] at finished
    next =>
      cases ended : s.finish with
      | error fault =>
        rw [ended] at finished
        cases finished
      | ok g' =>
        rw [ended] at finished
        cases finished
        refine ⟨g', ?_, by simp⟩
        exact bind_eq_ok.mpr ⟨s, after, ended⟩
    next => exact fun stars outermost => recursed_append .trailing (known.filled stars outermost) _

theorem restsOf_append (front back : List Part) (text : List UInt8) :
    restsOf (front ++ back) text = (restsOf front text).flatMap (restsOf back) := by
  induction front generalizing text with
  | nil => simp [restsOf]
  | cons part front ih => simp [restsOf, ih, List.flatMap_assoc]

theorem mem_restsOf_literal {cs : List Char} {text rest : List UInt8} :
    rest ∈ restsOf (cs.map .literal) text ↔ text = bytes cs ++ rest := by
  induction cs generalizing text with
  | nil => simp [restsOf, bytes, eq_comm]
  | cons c cs ih =>
    simp only [List.map_cons, restsOf, List.mem_flatMap, ih, Part.rests, Option.mem_toList,
      List.isPrefixOf?_eq_some_iff_append_eq]
    constructor
    next =>
      rintro ⟨_, rfl, rfl⟩
      simp [bytes]
    next =>
      rintro rfl
      exact ⟨bytes cs ++ rest, by simp [bytes], rfl⟩

theorem slash_of_rests {part : Part} (kind : part = .literal '/' ∨ part = .between ∨ part = .trailing)
    {text rest : List UInt8} (member : rest ∈ part.rests text) : ∃ more, text = slash :: more := by
  rcases kind with rfl | rfl | rfl
  next =>
    rw [Part.rests, Option.mem_toList, List.isPrefixOf?_eq_some_iff_append_eq] at member
    exact ⟨rest, member.symm⟩
  all_goals
    cases text with
    | nil => simp [Part.rests] at member
    | cons b text =>
      by_cases same : b = slash
      next => exact ⟨text, by rw [same]⟩
      next => simp [Part.rests, same] at member

theorem head_of_parse {cs : List Char} {g : Glob} (parsed : parse (String.ofList ('/' :: cs)) = .ok g) :
    ∃ part parts, g.parts = part :: parts ∧ (part = .literal '/' ∨ part = .between ∨ part = .trailing) := by
  rcases parse_slash cs with below | ⟨_, all⟩
  next =>
    rw [parsed] at below
    cases bare : parse (String.ofList cs) with
    | error fault =>
      rw [bare] at below
      cases below
    | ok g' =>
      rw [bare] at below
      cases below
      simp only [rooted]
      split
      next => exact ⟨.between, _, rfl, by simp⟩
      next => exact ⟨.literal '/', _, rfl, by simp⟩
  next =>
    cases parsed.symm.trans all
    exact ⟨.trailing, [], rfl, by simp⟩

theorem slash_of_parse {cs : List Char} {g : Glob} (parsed : parse (String.ofList ('/' :: cs)) = .ok g)
    {text rest : List UInt8} (member : rest ∈ restsOf g.parts text) : ∃ more, text = slash :: more := by
  obtain ⟨part, parts, own, kind⟩ := head_of_parse parsed
  rw [own, restsOf, List.mem_flatMap] at member
  obtain ⟨_, first, _⟩ := member
  exact slash_of_rests kind first

theorem head_of_bytes {c d : Char} {rest more : List UInt8}
    (same : String.utf8EncodeChar c ++ rest = String.utf8EncodeChar d ++ more) : c = d := by
  have decoded := congrArg (fun text => text.toByteArray.utf8DecodeChar? 0) same
  simp only [List.toByteArray_append, ByteArray.utf8DecodeChar?_utf8EncodeChar_append] at decoded
  exact Option.some.inj decoded

theorem append_of_bytes {front cs : List Char} {rest : List UInt8} (split : bytes cs = bytes front ++ rest) :
    ∃ back, cs = front ++ back ∧ bytes back = rest := by
  induction front generalizing cs with
  | nil => exact ⟨cs, rfl, split⟩
  | cons c front ih =>
    cases cs with
    | nil =>
      have none : String.utf8EncodeChar c = [] := by
        simp only [bytes, List.flatMap_nil, List.flatMap_cons, List.append_assoc] at split
        exact (List.append_eq_nil_iff.mp split.symm).1
      exact absurd none String.utf8EncodeChar_ne_nil
    | cons d cs =>
      have whole : String.utf8EncodeChar d ++ bytes cs = String.utf8EncodeChar c ++ (bytes front ++ rest) := by
        simpa [bytes] using split
      obtain rfl := head_of_bytes whole
      obtain ⟨back, rfl, same⟩ := ih (List.append_cancel_left whole)
      exact ⟨back, rfl, same⟩

theorem below_of_accepts {front rest : List Char} {g : Glob} (literal : ∀ c ∈ front, c ∉ opening)
    (parsed : parse (String.ofList (front ++ '/' :: rest)) = .ok g) {path : String} (accepted : g.accepts path = true) :
    ∃ more, path.toList = front ++ '/' :: more := by
  obtain ⟨g', parsed', parts⟩ := parse_below literal parsed
  obtain ⟨own⟩ := g
  obtain rfl : own = front.map .literal ++ g'.parts := parts
  have other : front.map .literal ++ g'.parts ≠ [.leading] := by
    cases front with
    | nil =>
      obtain ⟨part, parts, own, kind⟩ := head_of_parse parsed'
      rcases kind with rfl | rfl | rfl <;> simp [own]
    | cons c front => simp
  rw [accepts_eq other, List.contains_iff_mem, restsOf_append, List.mem_flatMap] at accepted
  obtain ⟨text, before, after⟩ := accepted
  obtain ⟨more, rfl⟩ := slash_of_parse parsed' after
  obtain ⟨back, split, same⟩ := append_of_bytes (mem_restsOf_literal.mp before)
  have slashed : bytes back = bytes ['/'] ++ more := same
  obtain ⟨inner, rfl, _⟩ := append_of_bytes slashed
  exact ⟨inner, split⟩

end Glob

end ClassLinker
