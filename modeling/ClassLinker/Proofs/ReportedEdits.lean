import ClassLinker.Proofs.FileEdits
import ClassLinker.Proofs.FileKeys
import ClassLinker.Proofs.Incremental

set_option autoImplicit false

namespace ClassLinker

open WebPath

def Workspace.isVacant (w : Workspace) (path : String) : Bool :=
  match w.find path with
  | .error .missing => true
  | _ => false

inductive FileAction where
  | create (contents : Contents)
  | modify (contents : Contents)
  | delete

def FileAction.change : FileAction → FileChange
  | create _ => .created
  | modify _ => .changed
  | delete => .deleted

def FileAction.contents? : FileAction → Option Contents
  | create contents | modify contents => some contents
  | delete => none

structure FileEdit where
  file : String
  id : String
  action : FileAction

namespace FileEdit

def apply (w : Workspace) (e : FileEdit) : Workspace :=
  match e.action with
  | .create contents | .modify contents => w.write e.file contents
  | .delete => w.remove e.file

def isPossible (w : Workspace) (e : FileEdit) : Bool :=
  match e.action with
  | .create _ => w.isVacant e.file
  | .modify _ | .delete => w.hasFile e.file

def step (w : Workspace) (e : FileEdit) : Step := ⟨e.apply w, e.id, e.action.change⟩

def steps : Workspace → List FileEdit → List Step
  | _, [] => []
  | w, e :: rest => e.step w :: steps (e.apply w) rest

theorem steps_append (w : Workspace) (edits : List FileEdit) (e : FileEdit) :
    steps w (edits ++ [e]) = steps w edits ++ [e.step (edits.foldl apply w)] := by
  induction edits generalizing w with
  | nil => rfl
  | cons first rest ih => simp only [List.cons_append, steps, ih, List.foldl_cons]

end FileEdit

namespace Workspace

theorem isFree_of_missing {names : List (List Char)} (proper : ∀ name ∈ names, IsName name)
    {entries : List (String × Node)} {outer : List Node}
    (missing : follow (.directory entries :: outer) (names.map String.ofList) = .error .missing) :
    isFree entries (names.map String.ofList) = true := by
  induction names generalizing entries outer with
  | nil => cases missing
  | cons name names ih =>
    obtain ⟨first, others⟩ := List.forall_mem_cons.mp proper
    rw [List.map_cons, follow_name first] at missing
    cases entry : entries.lookup (String.ofList name) with
    | none => cases names <;> simp [isFree, entry]
    | some node =>
      rw [entry, Option.elim_some] at missing
      cases names with
      | nil => cases missing
      | cons next names =>
        cases node with
        | file contents => cases missing
        | directory inner => simpa [isFree, entry] using ih others missing

section
variable {w : Workspace} (plain : w.isPlain = true) (distinct : w.isDistinct = true)
include plain distinct

theorem differsAt_apply {e : FileEdit} (normal : normalise e.file [] = e.file) (possible : e.isPossible w = true) :
    DiffersAt e.file w (e.apply w) ∧ (e.apply w).contentsAt e.file = e.action.contents? := by
  obtain ⟨file, id, action⟩ := e
  have inner : file ≠ "/" := by
    rintro rfl
    have found : w.find "/" = .ok [w.root] := rfl
    cases action <;> simp [FileEdit.isPossible, isVacant, hasFile, found, root] at possible
  obtain ⟨names, spells⟩ := names_of_normal normal inner
  have free (present : w.hasFile file = true) : isFree w.entries (names.map String.ofList) = true := by
    rw [hasFile_eq, spells.contentsAt] at present
    exact isFree_of_fileIn present
  cases action with
  | create contents =>
    have missing : w.find file = .error .missing := by
      have vacant : w.isVacant file = true := possible
      unfold isVacant at vacant
      split at vacant
      next missing => exact missing
      next => cases vacant
    rw [find, components_of_trail spells.proper spells.filled spells.spelled] at missing
    exact spells.write plain distinct (isFree_of_missing spells.proper missing) contents
  | modify contents => exact spells.write plain distinct (free possible) contents
  | delete => exact spells.remove plain distinct possible

end

end Workspace

namespace Session

open Workspace

theorem normalise_fileOf (s : Session) (id : String) : normalise (s.fileOf id) [] = s.fileOf id := by
  have again := normalise_normalise (String.ofList (belowRoot s.root.toList (slashed (withoutQuery id).toList))) []
  have named : s.fileOf id = normalise (String.ofList (belowRoot s.root.toList (slashed (withoutQuery id).toList))) [] := by
    rw [fileOf, ofFileId, normalise, String.toList_ofList]
  rw [named, again]

section
variable {s : Session} {w : Workspace} {file : String} (plain : w.isPlain = true) (settings : s.IsPlain)
include plain settings

theorem hasFile_of_mem_candidates (distinct : w.isDistinct = true) (member : file ∈ s.candidates w) :
    w.hasFile file = true := by
  have present {directory : String} {outer : List (List Char)} (spells : Spells directory outer)
      (walked : file ∈ w.walk directory) : w.hasFile file = true :=
    ((mem_walk_iff_of_spells plain distinct spells).mp walked).1
  rcases mem_candidates.mp member with ⟨x, mapped, walked, _⟩ | ⟨pattern, listed, expanded⟩
  next =>
    obtain ⟨outer, spells, -⟩ := (settings.directories x mapped).spells
    exact present spells walked
  next =>
    obtain ⟨outer, spells, -⟩ := (settings.patterns pattern listed).spells
    unfold expand at expanded
    simp only [(settings.patterns pattern listed).slashed] at expanded
    split at expanded
    next => cases expanded
    next => exact present spells (List.mem_of_mem_filter expanded)

variable (configured : globs s.config.included = .ok s.included)
include configured

theorem mem_examined_of_inScope (present : w.hasFile file = true) (normal : normalise file [] = file)
    (beside : ∀ x ∈ s.resolver.baseDirectories, s.pathOf file ≠ x.2) (inside : s.inScope file = true) :
    file ∈ s.examined w := by
  obtain ⟨names, isFile⟩ := isFile_of_normal present normal
  obtain ⟨script, kept, place⟩ := inScope_iff.mp inside
  rw [examined, List.mem_filter, isFile.mem_candidates_iff plain settings configured beside]
  exact ⟨place.imp_right fun mapped => ⟨script, mapped⟩, by simp [kept]⟩

theorem inScope_of_mem_examined (distinct : w.isDistinct = true) (member : file ∈ s.examined w)
    (script : s.isIncluded file = true → s.isScript file = true) : s.inScope file = true := by
  obtain ⟨member, kept⟩ := List.mem_filter.mp member
  have normal := normal_of_mem_candidates plain settings member
  obtain ⟨names, isFile⟩ := isFile_of_normal (hasFile_of_mem_candidates plain settings distinct member) normal
  have place : s.isScript file = true ∧ (s.isIncluded file = true ∨ s.inNamespace (s.pathOf file) = true) := by
    rcases mem_candidates.mp member with ⟨x, mapped, walked, ended⟩ | expanded
    next =>
      refine ⟨ended, .inr (List.any_eq_true.mpr ⟨x, mapped, ?_⟩)⟩
      by_cases beside : s.pathOf file = x.2
      next => exact isBelow_iff.mpr (.inr (.inl beside))
      next => exact (isFile.isBelow_iff plain settings.scripts (settings.directories x mapped) beside).mpr walked
    next =>
      have included := (isFile.isIncluded_iff plain settings configured).mpr expanded
      exact ⟨script included, .inl included⟩
  exact inScope_iff.mpr ⟨place.1, by simpa using kept, place.2⟩

end

/-- An edit of a file that the session is told the name of. A file that is asked for is a script; a file that is read
again does not lie beside a mapped directory of the same name, and no other file has its path. -/
structure Regular (s : Session) (w : Workspace) (e : FileEdit) : Prop where
  possible : e.isPossible w = true
  named : s.fileOf e.id = e.file
  script : e.action.change ≠ .deleted → s.isIncluded e.file = true → s.isScript e.file = true
  beside : e.action.change = .changed → s.inScope e.file = true →
    ∀ x ∈ s.resolver.baseDirectories, s.pathOf e.file ≠ x.2
  alone : e.action.change = .changed ∧ s.inScope e.file = true ∨ e.action.change = .deleted → s.Alone w e.file

def RegularAll (s : Session) : Workspace → List FileEdit → Prop
  | _, [] => True
  | w, e :: rest => s.Regular w e ∧ s.RegularAll (e.apply w) rest

theorem regularAll_append {s : Session} {w : Workspace} {edits : List FileEdit} {e : FileEdit} :
    s.RegularAll w (edits ++ [e]) ↔ s.RegularAll w edits ∧ s.Regular (edits.foldl FileEdit.apply w) e := by
  induction edits generalizing w with
  | nil => simp [RegularAll]
  | cons first rest ih => simp only [List.cons_append, RegularAll, ih, List.foldl_cons, and_assoc]

def takesAll (s : Session) : List Step → Bool
  | [] => true
  | t :: rest => (s.fileChanged t.workspace t.id t.change).1.isOk && (s.after t.call).takesAll rest

theorem takesAll_append {s : Session} {steps : List Step} {t : Step} : s.takesAll (steps ++ [t]) = true ↔
    s.takesAll steps = true ∧ ((s.run (steps.map Step.call)).fileChanged t.workspace t.id t.change).1.isOk = true := by
  induction steps generalizing s with
  | nil => simp [takesAll]
  | cons first rest ih =>
    simp only [List.cons_append, takesAll, Bool.and_eq_true, ih, List.map_cons, run_cons, and_assoc]

theorem classesOf_of_isOk {s : Session} {w : Workspace} {id : String}
    (ok : (s.fileChanged w id .changed).1.isOk = true) (inside : s.inScope (s.fileOf id) = true) :
    ∃ classes, s.classesOf w (s.fileOf id) = some classes := by
  rw [fileChanged_changed, if_pos inside] at ok
  have same := sameSettings_invalidated s (s.pathOf (s.fileOf id))
  rw [← Option.isSome_iff_exists, ← same.classesOf]
  revert ok
  generalize s.invalidated (s.pathOf (s.fileOf id)) = s'
  unfold relearn define classesOf
  cases w.read (s.fileOf id) with
  | error fault => exact fun refused => refused
  | ok source =>
    simp only
    cases s'.analyse (s'.pathOf (s.fileOf id)) source with
    | error problem => exact fun refused => refused
    | ok a => exact fun _ => rfl

section
variable {s : Session} {w : Workspace} {e : FileEdit} (plain : w.isPlain = true) (distinct : w.isDistinct = true)
  (settings : s.IsPlain) (configured : globs s.config.included = .ok s.included) (regular : s.Regular w e)
include plain distinct regular

theorem Regular.differs :
    DiffersAt e.file w (e.apply w) ∧ (e.apply w).contentsAt e.file = e.action.contents? :=
  differsAt_apply plain distinct (regular.named ▸ s.normalise_fileOf e.id) regular.possible

include settings

theorem Regular.finds_reread {classes : List Descriptor} (own : s.finds (e.apply w) (s.pathOf e.file) = classes) :
    s.finds (e.apply w) = Function.update (s.finds w) (s.pathOf e.file) classes := by
  funext path
  rw [Function.update_apply]
  split
  next same => rw [same, own]
  next other => exact finds_of_others settings (regular.differs plain distinct).1 other

include configured

theorem Regular.finds_outside (outside : s.inScope e.file = false) (kept : e.action.change ≠ .deleted) :
    s.finds (e.apply w) = s.finds w := by
  obtain ⟨differs, _⟩ := regular.differs plain distinct
  have unread {w : Workspace} (plain : w.isPlain = true) (distinct : w.isDistinct = true) :
      e.file ∉ s.examined w := by
    intro member
    have inside := inScope_of_mem_examined plain settings configured distinct member (regular.script kept)
    rw [outside] at inside
    cases inside
  funext path
  rw [finds, finds, search_of_unread settings differs (unread plain distinct)
    (unread differs.plain.2 differs.distinct.2)]

theorem Regular.finds_apply (quiet : s.rebuilds (e.step w) = false)
    (read : e.action.change = .changed → s.inScope e.file = true →
      ∃ classes, s.classesOf (e.apply w) e.file = some classes) :
    s.finds (e.apply w) = (s.rereading? (e.step w)).elim (s.finds w) fun source =>
      Function.update (s.finds w) source.1 source.2 := by
  obtain ⟨differs, contents⟩ := regular.differs plain distinct
  have target : s.target (e.step w) = s.pathOf e.file := congrArg s.pathOf regular.named
  have named : s.fileOf (e.step w).id = e.file := regular.named
  have change : (e.step w).change = e.action.change := rfl
  cases kind : e.action.change with
  | created =>
    have nothing : s.rereading? (e.step w) = none := by
      unfold rereading?
      rw [change, kind]
    have outside : s.inScope e.file = false := by
      rw [rebuilds, change, kind, named] at quiet
      exact quiet
    rw [nothing, Option.elim_none]
    exact regular.finds_outside plain distinct settings configured outside (by simp [kind])
  | changed =>
    cases inside : s.inScope e.file with
    | false =>
      have nothing : s.rereading? (e.step w) = none := by
        unfold rereading?
        rw [change, kind, named, inside]
        rfl
      rw [nothing, Option.elim_none]
      exact regular.finds_outside plain distinct settings configured inside (by simp [kind])
    | true =>
      obtain ⟨classes, known⟩ := read kind inside
      have reading : s.rereading? (e.step w) = some (s.pathOf e.file, classes) := by
        unfold rereading?
        rw [change, kind, named, inside, target]
        exact congrArg (Option.map (s.pathOf e.file, ·)) known
      have present : (e.apply w).hasFile e.file = true := by
        rw [hasFile_eq, contents]
        cases action : e.action with
        | create _ => rfl
        | modify _ => rfl
        | delete => simp [action, FileAction.change] at kind
      have normal : normalise e.file [] = e.file := regular.named ▸ s.normalise_fileOf e.id
      have examined := mem_examined_of_inScope differs.plain.2 settings configured present normal
        (regular.beside kind inside) inside
      have alone := (regular.alone (.inl ⟨kind, inside⟩)).of_differs settings differs
      rw [reading, Option.elim_some]
      exact regular.finds_reread plain distinct settings (alone.finds_eq examined known)
  | deleted =>
    have reading : s.rereading? (e.step w) = some (s.pathOf e.file, []) := by
      unfold rereading?
      rw [change, kind, target]
    have unread : e.file ∉ s.examined (e.apply w) := by
      intro member
      have present := hasFile_of_mem_candidates differs.plain.2 settings differs.distinct.2 (List.mem_filter.mp member).1
      rw [hasFile_eq, contents] at present
      cases action : e.action with
      | create _ => simp [action, FileAction.change] at kind
      | modify _ => simp [action, FileAction.change] at kind
      | delete => simp [action, FileAction.contents?] at present
    have alone := (regular.alone (.inr kind)).of_differs settings differs
    rw [reading, Option.elim_some]
    exact regular.finds_reread plain distinct settings (alone.finds_eq_nil unread)

end

section
variable {start : Session} {first : Workspace} {edits : List FileEdit} (settings : start.IsPlain)
  (configured : globs start.config.included = .ok start.included) (plain : first.isPlain = true)
  (distinct : first.isDistinct = true) (regular : start.RegularAll first edits)
include plain distinct regular

theorem isPlain_edited : (edits.foldl FileEdit.apply first).isPlain = true ∧
    (edits.foldl FileEdit.apply first).isDistinct = true := by
  induction edits using List.reverseRecOn with
  | nil => exact ⟨plain, distinct⟩
  | append_singleton edits e ih =>
    obtain ⟨before, here⟩ := regularAll_append.mp regular
    obtain ⟨plain', distinct'⟩ := ih before
    obtain ⟨differs, _⟩ := here.differs plain' distinct'
    rw [List.foldl_append]
    exact ⟨differs.plain.2, differs.distinct.2⟩

include settings configured

theorem classesAt_history (accepted : (start.discover first).2.takesAll (FileEdit.steps first edits) = true) :
    Sources.classesAt (start.history first (FileEdit.steps first edits)) =
      start.finds (edits.foldl FileEdit.apply first) := by
  induction edits using List.reverseRecOn with
  | nil => rfl
  | append_singleton edits e ih =>
    obtain ⟨before, here⟩ := regularAll_append.mp regular
    rw [FileEdit.steps_append] at accepted ⊢
    obtain ⟨accepted, ok⟩ := takesAll_append.mp accepted
    obtain ⟨plain', distinct'⟩ := isPlain_edited plain distinct before
    rw [history_append, List.foldl_append, List.foldl_cons, List.foldl_nil]
    cases rebuilds : start.rebuilds (e.step (edits.foldl FileEdit.apply first)) with
    | true => rfl
    | false =>
      have read : e.action.change = .changed → start.inScope e.file = true →
          ∃ classes, start.classesOf (e.apply (edits.foldl FileEdit.apply first)) e.file = some classes := by
        intro kind inside
        have same := told_settings start first (FileEdit.steps first edits)
        have change : (e.step (edits.foldl FileEdit.apply first)).change = .changed := kind
        have named : (start.told first (FileEdit.steps first edits)).fileOf e.id = e.file := by
          rw [same.fileOf, here.named]
        rw [change] at ok
        obtain ⟨classes, known⟩ := classesOf_of_isOk (s := start.told first (FileEdit.steps first edits)) ok
          (by rw [same.inScope]; exact named ▸ inside)
        rw [same.classesOf] at known
        exact ⟨classes, named ▸ known⟩
      have found := here.finds_apply plain' distinct' settings configured rebuilds read
      rw [if_neg Bool.false_ne_true, found, ← ih before accepted]
      cases start.rereading? (e.step (edits.foldl FileEdit.apply first)) with
      | none => rw [Option.toList_none, List.append_nil, Option.elim_none]
      | some source => rw [Option.toList_some, Sources.classesAt_append, Option.elim_some]

end

end Session

namespace Sources

/-- The file that has a class: the last one that defines it, if it still does when it is read for the last time. -/
def holder? (sources : Sources) (name : String) : Option String :=
  ((lastDefiner? sources name).map (·.1)).filter fun path =>
    (Registry.lastDefined (Sources.classesAt sources path) name).isSome

section
variable {sources : Sources} {name path : String}

theorem holder?_isSome (holds : holder? sources name = some path) :
    (Registry.lastDefined (Sources.classesAt sources path) name).isSome = true :=
  (Option.filter_eq_some_iff.mp holds).2

theorem holder?_append (classes : List Descriptor) : holder? (sources ++ [(path, classes)]) name =
    if (Registry.lastDefined classes name).isSome then some path
    else (holder? sources name).filter (· ≠ path) := by
  unfold holder?
  rw [lastDefiner?_append, Sources.classesAt_append, defines_eq]
  cases new : (Registry.lastDefined classes name).isSome with
  | true => simp [new]
  | false =>
    cases lastDefiner? sources name with
    | none => rfl
    | some source =>
      by_cases same : source.1 = path
      next =>
        rw [if_neg Bool.false_ne_true, if_neg Bool.false_ne_true, Option.map_some, Option.filter_some, same,
          Function.update_self, new, if_neg Bool.false_ne_true, eq_comm, Option.filter_eq_none_iff]
        intro other held
        obtain rfl := Option.some.inj (Option.filter_eq_some_iff.mp held).1
        simp
      next =>
        rw [if_neg Bool.false_ne_true, if_neg Bool.false_ne_true, Option.map_some, Option.filter_some,
          Option.filter_some, Function.update_of_ne same]
        split
        next => simp [Option.filter_some, same]
        next => rfl

def SolePath (sources : Sources) (name : String) : Prop :=
  ∀ x ∈ sources, ∀ y ∈ sources, defines name x → defines name y → x.1 = y.1

theorem mem_of_defined (defined : (Registry.lastDefined (Sources.classesAt sources path) name).isSome = true) :
    (path, Sources.classesAt sources path) ∈ sources := by
  obtain ⟨d, found⟩ := Option.isSome_iff_exists.mp defined
  exact mem_of_classesAt (Registry.lastDefined_eq_some found).1

theorem SolePath.unique (sole : sources.SolePath name) {other : String}
    (defined : (Registry.lastDefined (Sources.classesAt sources path) name).isSome = true)
    (defined' : (Registry.lastDefined (Sources.classesAt sources other) name).isSome = true) : path = other :=
  sole _ (mem_of_defined defined) _ (mem_of_defined defined') (by rw [defines_eq, defined])
    (by rw [defines_eq, defined'])

theorem SolePath.holder? (sole : sources.SolePath name)
    (defined : (Registry.lastDefined (Sources.classesAt sources path) name).isSome = true) :
    holder? sources name = some path := by
  have member := mem_of_defined defined
  cases last : lastDefiner? sources name with
  | none =>
    have none := List.find?_eq_none.mp last _ (List.mem_reverse.mpr member)
    rw [defines_eq, defined] at none
    exact absurd rfl none
  | some source =>
    have here : source ∈ sources := List.mem_reverse.mp (List.mem_of_find?_eq_some last)
    have same : source.1 = path :=
      sole source here _ member (List.find?_some last) (by rw [defines_eq, defined])
    rw [Sources.holder?, last, Option.map_some, same, Option.filter_some, if_pos defined]

theorem holder?_eq {other : Sources} (same : Sources.classesAt sources = Sources.classesAt other)
    (holds : ∀ path, (Registry.lastDefined (Sources.classesAt sources path) name).isSome = true →
      holder? sources name = some path)
    (holds' : ∀ path, (Registry.lastDefined (Sources.classesAt other path) name).isSome = true →
      holder? other name = some path) : holder? sources name = holder? other name := by
  apply Option.ext
  intro path
  constructor
  next => exact fun held => holds' path (same ▸ holder?_isSome held)
  next => exact fun held => holds path (same ▸ holder?_isSome held)

theorem holder?_eq_iff {other : Sources} (same : Sources.classesAt sources = Sources.classesAt other)
    (own : Sources.Own other) :
    ((holder? sources name).bind fun path => Registry.lastDefined (Sources.classesAt sources path) name) =
      ((holder? other name).bind fun path => Registry.lastDefined (Sources.classesAt other path) name) ↔
    holder? sources name = holder? other name := by
  have gives {sources : Sources} (same : Sources.classesAt sources = Sources.classesAt other) {path : String} :
      holder? sources name = some path ↔
        ∃ d, ((holder? sources name).bind fun path => Registry.lastDefined (Sources.classesAt sources path) name) =
          some d ∧ d.sourceFile = path := by
    constructor
    next =>
      intro held
      obtain ⟨d, defined⟩ := Option.isSome_iff_exists.mp (holder?_isSome held)
      refine ⟨d, by rw [held, Option.bind_some, defined], ?_⟩
      rw [same] at defined
      exact (own.classesAt (Registry.lastDefined_eq_some defined).1).1
    next =>
      rintro ⟨d, found, rfl⟩
      obtain ⟨path, held, defined⟩ := Option.bind_eq_some_iff.mp found
      rw [same] at defined
      rw [held, (own.classesAt (Registry.lastDefined_eq_some defined).1).1]
  constructor
  next =>
    intro equal
    apply Option.ext
    intro path
    rw [gives same, gives rfl, equal]
  next =>
    intro equal
    rw [equal, same]

end

end Sources

theorem Registry.get_readAll_holder {sources : Sources} (own : Sources.Own sources) (name : String) :
    ((readAll sources).get? name).map Descriptor.bare =
      (Sources.holder? sources name).bind fun path => lastDefined (Sources.classesAt sources path) name := by
  rw [get_readAll_classesAt own, Sources.holder?]
  cases Sources.lastDefiner? sources name with
  | none => rfl
  | some source =>
    cases defined : lastDefined (Sources.classesAt sources source.1) name with
    | none => simp [Option.filter_some, defined]
    | some d =>
      have fresh := (own.classesAt (lastDefined_eq_some defined).1).2
      have bare : d.bare = d := by rw [Descriptor.bare, ← fresh]
      simp [Option.filter_some, defined, bare]

namespace Session

section
variable (start : Session) (first : Workspace)

theorem get_told (steps : List Step) (name : String) :
    ((start.told first steps).registry.get? name).map Descriptor.bare =
      (Sources.holder? (start.history first steps) name).bind fun path =>
        Registry.lastDefined (Sources.classesAt (start.history first steps) path) name := by
  rw [(told_registry start first steps).get, Registry.get_readAll_holder (history_own start first steps)]

theorem get_told_deleted {t : Step} (kind : t.change = .deleted)
    (only : ∀ x ∈ start.search first, x.1 = start.target t) (name : String) :
    (start.told first [t]).registry.get? name = none := by
  have quiet : start.rebuilds t = false := by simp [rebuilds, kind]
  have read : start.history first [t] = start.search first ++ [(start.target t, [])] := by
    have log : start.history first [t] = _ := history_append start first [] t
    rw [log, quiet, if_neg Bool.false_ne_true, rereading?, kind]
    rfl
  have none : Sources.holder? (start.history first [t]) name = none := by
    rw [read, Sources.holder?_append]
    cases held : Sources.holder? (start.search first) name with
    | none => rfl
    | some path =>
      obtain ⟨source, last, rfl⟩ := Option.map_eq_some_iff.mp (Option.filter_eq_some_iff.mp held).1
      rw [only source (List.mem_reverse.mp (List.mem_of_find?_eq_some last))]
      simp [Registry.lastDefined, Option.filter_some]
  have known := get_told start first [t] name
  rwa [none, Option.bind_none, Option.map_eq_none_iff] at known

theorem holder?_history {edits : List FileEdit} {name : String} (settings : start.IsPlain)
    (configured : globs start.config.included = .ok start.included) (plain : first.isPlain = true)
    (distinct : first.isDistinct = true) (regular : start.RegularAll first edits)
    (accepted : (start.discover first).2.takesAll (FileEdit.steps first edits) = true)
    (sole : ∀ w ∈ first :: (FileEdit.steps first edits).map (·.workspace), Sources.SolePath (start.search w) name)
    {path : String}
    (defined : (Registry.lastDefined
      (Sources.classesAt (start.history first (FileEdit.steps first edits)) path) name).isSome = true) :
    Sources.holder? (start.history first (FileEdit.steps first edits)) name = some path := by
  induction edits using List.reverseRecOn generalizing path with
  | nil => exact (sole first (by simp)).holder? defined
  | append_singleton edits e ih =>
    have up_to_date := classesAt_history settings configured plain distinct regular accepted
    obtain ⟨before, _⟩ := regularAll_append.mp regular
    rw [FileEdit.steps_append] at accepted sole defined up_to_date ⊢
    obtain ⟨accepted, _⟩ := takesAll_append.mp accepted
    have earlier := @ih before accepted fun w member => sole w (by
      rw [List.map_append]
      exact List.mem_cons.mpr ((List.mem_cons.mp member).imp_right (List.mem_append_left _)))
    have now := sole (e.step (edits.foldl FileEdit.apply first)).workspace (by simp)
    rw [history_append] at defined up_to_date ⊢
    cases rebuilds : start.rebuilds (e.step (edits.foldl FileEdit.apply first)) with
    | true =>
      rw [rebuilds, if_pos rfl] at defined
      exact now.holder? defined
    | false =>
      rw [rebuilds, if_neg Bool.false_ne_true] at defined up_to_date
      rw [if_neg Bool.false_ne_true]
      cases reading : start.rereading? (e.step (edits.foldl FileEdit.apply first)) with
      | none =>
        rw [reading, Option.toList_none, List.append_nil] at defined
        rw [Option.toList_none, List.append_nil]
        exact earlier defined
      | some source =>
        obtain ⟨target, classes⟩ := source
        rw [reading, Option.toList_some] at defined up_to_date
        rw [Option.toList_some, Sources.holder?_append]
        rw [Sources.classesAt_append, Function.update_apply] at defined
        by_cases same : path = target
        next =>
          rw [if_pos same] at defined
          rw [if_pos defined, same]
        next =>
          rw [if_neg same] at defined
          -- the file that is read now does not define the class as well
          have silent : ¬ (Registry.lastDefined classes name).isSome = true := by
            intro other
            have found : Sources.classesAt (start.search (e.step (edits.foldl FileEdit.apply first)).workspace) =
                Function.update (Sources.classesAt (start.history first (FileEdit.steps first edits))) target classes := by
              rw [← Sources.classesAt_append, up_to_date, List.foldl_append]
              rfl
            refine same (now.unique ?_ ?_)
            next => rwa [found, Function.update_of_ne same]
            next => rwa [found, Function.update_self]
          rw [if_neg silent, earlier defined]
          simp [Option.filter_some, same]

theorem told_report (steps : List Step) (name : String) : (start.told first steps).missing[name]? =
    ((start.told first steps).registry.get? name).bind fun d =>
      (start.atReading first d.sourceFile steps).lacks d := by
  cases found : (start.told first steps).registry.get? name with
  | none => exact told_unknown start first steps name found
  | some d => exact told_missing start first steps found

end

/-- A session that has searched a workspace is told of edits, one file at a time. It then knows of every file what a new
search finds in it. It has a class from the file that was read last of those that defined it, unless that file no longer
does; a search has it from the last file in order. So the classes agree exactly if for every name these are the same file,
and they do for a name that no two files ever define. The report on a class is that of the last reading of its file; it
agrees with that of a search if the references that led nowhere then are those that do now. -/
theorem edits_told_agree_with_search_iff {root : String} {config : Config} {start : Session}
    (created : create root config = .ok start) (settings : start.IsPlain) {first : Workspace}
    (plain : first.isPlain = true) (distinct : first.isDistinct = true) {edits : List FileEdit}
    (regular : start.RegularAll first edits)
    (accepted : (start.discover first).2.takesAll (FileEdit.steps first edits) = true) :
    let steps := FileEdit.steps first edits
    let last := edits.foldl FileEdit.apply first
    let read := start.history first steps
    let found := start.search last
    let told := (start.told first steps).snapshot
    let anew := (start.discover last).2.snapshot
    let now := (start.discover last).2.surroundings last
    Sources.classesAt read = Sources.classesAt found ∧
    (∀ name : String,
      told.classes[name]?.map Descriptor.bare = ((Sources.holder? read name).bind fun path =>
        Registry.lastDefined (Sources.classesAt found path) name) ∧
      anew.classes[name]?.map Descriptor.bare = (Sources.holder? found name).bind fun path =>
        Registry.lastDefined (Sources.classesAt found path) name) ∧
    ((told.classes.map fun _ d => d.bare) = (anew.classes.map fun _ d => d.bare) ↔
      ∀ name, Sources.holder? read name = Sources.holder? found name) ∧
    (∀ name : String, (∀ w ∈ first :: steps.map (·.workspace), Sources.SolePath (start.search w) name) →
      told.classes[name]?.map Descriptor.bare = anew.classes[name]?.map Descriptor.bare) ∧
    (∀ name : String,
      told.missingImports[name]? = (told.classes[name]?.bind fun d =>
        (start.atReading first d.sourceFile steps).lacks d) ∧
      anew.missingImports[name]? = anew.classes[name]?.bind now.lacks) ∧
    ∀ (name : String) (d e : Descriptor), told.classes[name]? = some d → anew.classes[name]? = some e → d.bare = e.bare →
      (told.missingImports[name]? = anew.missingImports[name]? ↔ ∀ reference ∈ d.references,
        (start.atReading first d.sourceFile steps).leadsNowhere reference = now.leadsNowhere reference) := by
  intro steps last read found told anew now
  have configured : globs start.config.included = .ok start.included := by
    obtain ⟨included, excluded, parsed, _, rfl⟩ := create_eq_blank.mp created
    exact parsed
  have same : Sources.classesAt read = Sources.classesAt found :=
    classesAt_history settings configured plain distinct regular accepted
  have known (name : String) : told.classes[name]?.map Descriptor.bare =
      (Sources.holder? read name).bind fun path => Registry.lastDefined (Sources.classesAt read path) name :=
    get_told start first steps name
  have known' (name : String) : anew.classes[name]?.map Descriptor.bare =
      (Sources.holder? found name).bind fun path => Registry.lastDefined (Sources.classesAt found path) name :=
    get_told start last [] name
  have held (name : String) : told.classes[name]?.map Descriptor.bare = anew.classes[name]?.map Descriptor.bare ↔
      Sources.holder? read name = Sources.holder? found name := by
    rw [known, known', Sources.holder?_eq_iff same (search_own start last)]
  have report (name : String) : told.missingImports[name]? =
      told.classes[name]?.bind fun d => (start.atReading first d.sourceFile steps).lacks d :=
    told_report start first steps name
  have report' (name : String) : anew.missingImports[name]? = anew.classes[name]?.bind now.lacks :=
    told_report start last [] name
  refine ⟨same, fun name => ⟨by rw [known, same], known' name⟩, ?_, ?_, fun name => ⟨report name, report' name⟩, ?_⟩
  next =>
    constructor
    next =>
      intro equal name
      have here := congrArg (fun table : Table Descriptor => table[name]?) equal
      rw [← held]
      simpa using here
    next =>
      intro equal
      apply Table.ext_get
      intro name
      simpa using (held name).mpr (equal name)
  next =>
    intro name sole
    have final := sole last (by
      unfold steps last
      clear * -
      induction edits using List.reverseRecOn with
      | nil => simp
      | append_singleton edits e _ => simp [FileEdit.steps_append, FileEdit.step])
    exact (held name).mpr <| Sources.holder?_eq same
      (fun path => holder?_history start first settings configured plain distinct regular accepted sole)
      (fun path => final.holder?)
  next =>
    intro name d e here there bare
    have lacking : now.lacks e = now.lacks d := Surroundings.lacks_eq rfl rfl rfl bare.symm
    rw [report, report', here, there, Option.bind_some, Option.bind_some, lacking, Surroundings.lacks_eq_iff]

set_option maxRecDepth 100000 in
theorem edits_told_agree_after_move :
    let config := { Config.default.withMapping "N" (.path "/src") with included := ["/lib/*.js"] }
    let defines : Contents := .text "Ext.define('N.X',\x7buses:'O.Y'\x7d)"
    let silent : Contents := .text "f()"
    let first : Workspace := ⟨[("lib", .directory [("B.js", .file silent)]), ("src", .directory [("A.js", .file defines)])]⟩
    let edits : List FileEdit := [⟨"/lib/B.js", "/r/lib/B.js", .modify defines⟩, ⟨"/src/A.js", "src/A.js", .modify silent⟩,
      ⟨"/src/A.js", "/src/A.js", .delete⟩]
    let steps := FileEdit.steps first edits
    ∃ start, create "/r" config = .ok start ∧ start.RegularAll first edits ∧
      (start.discover first).2.takesAll steps = true ∧
      let told := (start.told first steps).snapshot
      let anew := (start.discover (edits.foldl FileEdit.apply first)).2.snapshot
      (told.classes.map fun _ d => d.bare) = (anew.classes.map fun _ d => d.bare) ∧
      told.classes["N.X"]?.map Descriptor.sourceFile = some "/lib/B" ∧
      told.missingImports["N.X"]? = anew.missingImports["N.X"]? ∧ told.missingImports["N.X"]? = some ["O.Y"] := by
  -- A class moves from a mapped directory to a file that is asked for: the new file defines it as well, the old one
  -- no longer does, and is deleted.
  intro config defines silent first edits steps
  let last := edits.foldl FileEdit.apply first
  have runs : ∃ start, create "/r" config = .ok start ∧ start.config = config ∧
      start.resolver.baseDirectories = [("N", "/src")] ∧ start.RegularAll first edits ∧
      (start.discover first).2.takesAll steps = true ∧
      (∀ sources ∈ [start.history first steps, start.search last], ∀ x ∈ sources, ∀ d ∈ x.2, d.name = "N.X") ∧
      Sources.holder? (start.history first steps) "N.X" = Sources.holder? (start.search last) "N.X" ∧
      ((start.told first steps).snapshot.classes["N.X"]?.map fun d => (d.sourceFile, d.references)) =
        some ("/lib/B", ["O.Y"]) ∧
      ((start.atReading first "/lib/B" steps).leadsNowhere "O.Y" = true ∧
        ((start.discover last).2.surroundings last).leadsNowhere "O.Y" = true) ∧
      (start.told first steps).snapshot.missingImports["N.X"]? = some ["O.Y"] := by
    refine ⟨_, rfl, rfl, by decide +kernel, ⟨?_, ?_, ?_, trivial⟩, by decide +kernel, by decide +kernel,
      by decide +kernel, by decide +kernel, by decide +kernel, by decide +kernel⟩
    next => exact ⟨by decide +kernel, by decide +kernel, by decide +kernel, by decide +kernel, by decide +kernel⟩
    next => exact ⟨by decide +kernel, by decide +kernel, by decide +kernel, by decide +kernel, by decide +kernel⟩
    next => exact ⟨by decide +kernel, by decide +kernel, by decide +kernel, by decide +kernel, by decide +kernel⟩
  obtain ⟨start, created, own, directories, regular, accepted, named, holder, known, ⟨before, now⟩, reported⟩ := runs
  have settings : start.IsPlain := by
    refine ⟨?_, ?_, ?_⟩
    next =>
      simp only [directories, List.mem_singleton, forall_eq]
      exact .inr (by decide +kernel)
    next =>
      simp only [own, config, List.mem_singleton, forall_eq]
      exact ⟨by decide +kernel, by decide +kernel, .inr (by decide +kernel)⟩
    next =>
      rw [own]
      decide +kernel
  have plain : first.isPlain = true := by decide +kernel
  have distinct : first.isDistinct = true := by decide +kernel
  -- from here on it does not matter what the files are
  clear_value first edits
  obtain ⟨_, _, classes, _, _, report⟩ :=
    edits_told_agree_with_search_iff created settings plain distinct regular accepted
  have holders (name : String) : Sources.holder? (start.history first steps) name =
      Sources.holder? (start.search last) name := by
    by_cases same : name = "N.X"
    next => rw [same, holder]
    next =>
      have unknown (sources : Sources) (all : ∀ x ∈ sources, ∀ d ∈ x.2, d.name = "N.X") :
          Sources.holder? sources name = none := by
        have none : Sources.lastDefiner? sources name = none := by
          rw [Sources.lastDefiner?, List.find?_eq_none]
          intro x member defines
          rw [Sources.defines, List.contains_iff_mem] at defines
          obtain ⟨d, inside, called⟩ := List.mem_map.mp defines
          exact same (called ▸ all x (List.mem_reverse.mp member) d inside)
        rw [Sources.holder?, none]
        rfl
      rw [unknown _ (named _ List.mem_cons_self), unknown _ (named _ (List.mem_cons_of_mem _ List.mem_cons_self))]
  have agree := classes.mpr holders
  obtain ⟨d, found, parts⟩ := Option.map_eq_some_iff.mp known
  obtain ⟨source, references⟩ := Prod.mk.inj parts
  have both := congrArg (fun table : Table Descriptor => table["N.X"]?) agree
  rw [Std.ExtTreeMap.getElem?_map, Std.ExtTreeMap.getElem?_map, found, Option.map_some] at both
  obtain ⟨e, found', bare⟩ := Option.map_eq_some_iff.mp both.symm
  refine ⟨start, created, regular, accepted, agree, by rw [found, Option.map_some, source], ?_, reported⟩
  refine (report "N.X" d e found found' bare.symm).mpr ?_
  rw [source, references]
  intro reference listed
  rw [List.mem_singleton.mp listed, before]
  exact now.symm

set_option maxRecDepth 100000 in
/-- Sessions that are told of one edit and disagree with a search, on the file that has a class or on the report. -/
theorem edits_told_disagree_with_search :
    let config := { Config.default.withMapping "N" (.path "/src") with included := ["/lib/*.js", "/notes/*.txt"] }
    let defines : Contents := .text "Ext.define('N.X',\x7b\x7d)"
    let refers : Contents := .text "Ext.define('N.X',\x7buses:'O.Y'\x7d)"
    let other : Contents := .text "Ext.define('O.Y',\x7b\x7d)"
    let silent : Contents := .text "f()"
    let file (directory name : String) (contents : Contents) : String × Workspace.Node :=
      (directory, .directory [(name, .file contents)])
    let fits (s : Session) (first : Workspace) (e : FileEdit) : Bool :=
      e.isPossible first && (s.discover first).2.takesAll [e.step first]
    let files (s : Session) (first : Workspace) (e : FileEdit) : Option String × Option String :=
      ((s.told first [e.step first]).snapshot.classes["N.X"]?.map Descriptor.sourceFile,
        (s.discover (e.apply first)).2.snapshot.classes["N.X"]?.map Descriptor.sourceFile)
    let reports (s : Session) (first : Workspace) (e : FileEdit) : Option (List String) × Option (List String) :=
      ((s.told first [e.step first]).snapshot.missingImports["N.X"]?,
        (s.discover (e.apply first)).2.snapshot.missingImports["N.X"]?)
    -- a mapped directory that is not in normal form
    (∃ start, create "/r" (Config.default.withMapping "N" (.path "/lib/../src")) = .ok start ∧
      let w : Workspace := ⟨[file "lib" "B.js" silent, file "src" "A.js" silent]⟩
      let e : FileEdit := ⟨"/src/A.js", "/r/src/A.js", .modify defines⟩
      fits start w e = true ∧ files start w e = (none, some "/src/A")) ∧
    ∃ start, create "/r" config = .ok start ∧
      -- the file that has a class is deleted, or no longer defines it; another one that defines it is read again
      (let both : Workspace := ⟨[file "lib" "B.js" defines, file "src" "A.js" defines]⟩
        let deleted : FileEdit := ⟨"/src/A.js", "/r/src/A.js", .delete⟩
        let emptied : FileEdit := ⟨"/src/A.js", "/r/src/A.js", .modify silent⟩
        let touched : FileEdit := ⟨"/lib/B.js", "/r/lib/B.js", .modify defines⟩
        (fits start both deleted = true ∧ files start both deleted = (none, some "/lib/B")) ∧
        (fits start both emptied = true ∧ files start both emptied = (none, some "/lib/B")) ∧
        fits start both touched = true ∧ files start both touched = (some "/lib/B", some "/src/A")) ∧
      -- a class is deleted that another file refers to
      (let w : Workspace := ⟨[file "lib" "B.js" other, file "src" "A.js" refers]⟩
        let e : FileEdit := ⟨"/lib/B.js", "/r/lib/B.js", .delete⟩
        fits start w e = true ∧ reports start w e = (none, some ["O.Y"])) ∧
      -- a text that is asked for
      (let w : Workspace := ⟨[file "notes" "a.txt" silent]⟩
        let e : FileEdit := ⟨"/notes/a.txt", "/r/notes/a.txt", .modify defines⟩
        fits start w e = true ∧ files start w e = (none, some "/notes/a.txt")) ∧
      -- a file beside a mapped directory of the same name
      (let w : Workspace := ⟨[("src.js", .file silent)]⟩
        let e : FileEdit := ⟨"/src.js", "/r/src.js", .modify defines⟩
        fits start w e = true ∧ files start w e = (some "/src", none)) ∧
      -- a file with a question mark in its name
      (let w : Workspace := ⟨[file "src" "A?.js" silent]⟩
        let e : FileEdit := ⟨"/src/A?.js", "/r/src/A?.js", .modify defines⟩
        fits start w e = true ∧ files start w e = (none, some "/src/A?")) ∧
      -- two files with the same path
      let w : Workspace := ⟨[("src", .directory [("A", .file silent), ("A.js", .file defines)])]⟩
      let e : FileEdit := ⟨"/src/A", "/r/src/A", .delete⟩
      fits start w e = true ∧ files start w e = (none, some "/src/A") := by
  intro config defines refers other silent file fits files reports
  let w : Workspace := ⟨[("src", .directory [("A", .file silent), ("A.js", .file defines)])]⟩
  let e : FileEdit := ⟨"/src/A", "/r/src/A", .delete⟩
  have walked : w.walk "/src" = ["/src/A", "/src/A.js"] := by
    unfold Workspace.walk
    exact List.mergeSort_of_pairwise (l := ["/src/A", "/src/A.js"]) (by decide +kernel)
  have fitting (s : Session) : fits s w e = true := by
    have possible : e.isPossible w = true := by decide +kernel
    simp only [fits, possible, takesAll, FileEdit.step, e, FileAction.change, fileChanged]
    rfl
  have differ (s : Session) (own : s.config = config) (directories : s.resolver.baseDirectories = [("N", "/src")])
      (only : ∀ x ∈ ["/src/A.js"].filterMap (s.source? w), x.1 = s.target (e.step w))
      (found : (s.discover (e.apply w)).2.snapshot.classes["N.X"]?.map Descriptor.sourceFile = some "/src/A") :
      files s w e = (none, some "/src/A") := by
    have candidates : s.candidates w = ["/src/A.js"] := by
      simp only [Session.candidates, own, directories, List.flatMap_singleton, Workspace.list, walked]
      decide +kernel
    have lost : (s.told w [e.step w]).snapshot.classes["N.X"]? = none :=
      get_told_deleted s w rfl (by rwa [search, candidates]) "N.X"
    simp only [files, lost, found, Option.map_none]
  refine ⟨⟨_, rfl, by decide +kernel⟩, _, rfl, by decide +kernel, by decide +kernel, by decide +kernel,
    by decide +kernel, by decide +kernel, fitting _, differ _ rfl ?_ ?_ ?_⟩
  next => decide +kernel
  next => decide +kernel
  next => decide +kernel

end Session

end ClassLinker
