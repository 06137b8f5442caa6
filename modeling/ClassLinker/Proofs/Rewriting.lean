import ClassLinker.Proofs.SiteOrder

set_option autoImplicit false

namespace ClassLinker.Text

theorem slice_append {source : List Char} {a b c : Nat} (ab : a ≤ b) (bc : b ≤ c)
    (first : isBoundary source a = true) (second : isBoundary source b = true) :
    slice source a b ++ slice source b c = slice source a c := by
  have whole : takeBytes a source ++ (slice source a b ++ slice source b c) =
      takeBytes a source ++ slice source a c := by
    rw [← List.append_assoc, takeBytes_append_slice ab first, takeBytes_append_slice bc second,
      takeBytes_append_slice (Nat.le_trans ab bc) first]
  exact List.append_cancel_left whole

def slice? (source : List Char) (start stop : Nat) : Option (List Char) :=
  if start ≤ stop && isBoundary source start && isBoundary source stop then some (slice source start stop) else none

theorem slice?_eq {source : List Char} {start stop : Nat} (le : start ≤ stop)
    (first : isBoundary source start = true) (second : isBoundary source stop = true) :
    slice? source start stop = some (slice source start stop) := by
  simp [slice?, le, first, second]

theorem slice_of_slice? {source text : List Char} {start stop : Nat} (cut : slice? source start stop = some text) :
    slice source start stop = text := by
  unfold slice? at cut
  split at cut
  next => exact Option.some.inj cut
  next => cases cut

theorem slice?_earlier {source text : List Char} {start mid stop : Nat} (le : start ≤ mid)
    (boundary : isBoundary source start = true) (cut : slice? source mid stop = some text) :
    slice? source start stop = some (slice source start mid ++ text) := by
  unfold slice? at cut
  split at cut
  next possible =>
    simp only [Bool.and_eq_true, decide_eq_true_eq] at possible
    obtain ⟨⟨le', first⟩, second⟩ := possible
    rw [slice?_eq (Nat.le_trans le le') boundary second, ← Option.some.inj cut, slice_append le le' boundary first]
  next => cases cut

end ClassLinker.Text

namespace ClassLinker.ParentCall

open Script (Node Tree)
open Text (isBoundary slice takeBytes dropBytes)

def isSite (t : Tree) : Node → Bool
  | .mk .callExpression _ _ [.mk .memberExpression _ _ [_, property], _] => t.text property = "callParent"
  | _ => false

def callText (parent : Parent) (m : Method) (scope : List Char) (arguments : List (List Char)) : List Char :=
  (parent.lookup m.name m.side).toList ++ ".apply(".toList ++ scope ++ arguments.flatMap (", ".toList ++ ·) ++ [')']

mutual

/-- The text of a node in a method, with every call of the parent's method in it replaced. -/
def rewritten (t : Tree) (parent : Parent) (m : Method) : Node → List Char
  | .mk k s e cs =>
    if isSite t (.mk k s e cs) then
      match cs with
      | [.mk _ _ _ (receiver :: _), .mk _ _ _ arguments] =>
        callText parent m (rewritten t parent m receiver) (rewrittenPassed t parent m arguments)
      -- no other node is a site
      | _ => []
    else rewrittenFrom t parent m s e cs

def rewrittenPassed (t : Tree) (parent : Parent) (m : Method) : List Node → List (List Char)
  | [] => []
  | [.mk .array _ _ items] => rewrittenEach t parent m items
  | n :: rest => rewritten t parent m n :: rewrittenEach t parent m rest

def rewrittenEach (t : Tree) (parent : Parent) (m : Method) : List Node → List (List Char)
  | [] => []
  | n :: rest => rewritten t parent m n :: rewrittenEach t parent m rest

def rewrittenFrom (t : Tree) (parent : Parent) (m : Method) (cursor stop : Nat) : List Node → List Char
  | [] => slice t.source cursor stop
  | .mk k s e cs :: rest =>
    slice t.source cursor s ++ rewritten t parent m (.mk k s e cs) ++ rewrittenFrom t parent m e stop rest

end

mutual

/-- The call sites that are replaced in the text of a node. -/
def replacedIn (t : Tree) : Node → List Node
  | .mk k s e cs =>
    if isSite t (.mk k s e cs) then
      match cs with
      | [.mk _ _ _ (receiver :: _), .mk _ _ _ arguments] =>
        .mk k s e cs :: (replacedIn t receiver ++ replacedInPassed t arguments)
      | _ => []
    else replacedInEach t cs

def replacedInPassed (t : Tree) : List Node → List Node
  | [] => []
  | [.mk .array _ _ items] => replacedInEach t items
  | n :: rest => replacedIn t n ++ replacedInEach t rest

def replacedInEach (t : Tree) : List Node → List Node
  | [] => []
  | n :: rest => replacedIn t n ++ replacedInEach t rest

end

section
variable {t : Tree} {parent : Parent} {m : Method} {n : Node} {s : Site}

theorem isSite_eq (t : Tree) (m : Method) (n : Node) : isSite t n = (Site.ofNode? t m n).isSome := by
  unfold isSite
  split
  next property _ =>
    rw [Site.ofNode?]
    by_cases named : t.text property = "callParent" <;> simp [named]
  next other =>
    cases found : Site.ofNode? t m n with
    | none => rfl
    | some s =>
      obtain ⟨_, _, _, _, _, _, _, same, -⟩ := Site.ofNode?_eq_some found
      exact absurd same (other _ _ _ _ _ _ _)

theorem rewrittenEach_eq (cs : List Node) : rewrittenEach t parent m cs = cs.map (rewritten t parent m) := by
  induction cs with
  | nil => rfl
  | cons n rest ih => rw [rewrittenEach, ih, List.map_cons]

theorem rewrittenPassed_eq (cs : List Node) :
    rewrittenPassed t parent m cs = (Passed.ofArguments t cs).nodes.map (rewritten t parent m) := by
  unfold rewrittenPassed
  split
  next => rfl
  next s e items => exact rewrittenEach_eq items
  next n rest noArray =>
    rw [Passed.nodes_of_others t fun s e items same => ?_, rewrittenEach_eq, List.map_cons]
    obtain ⟨first, alone⟩ := List.cons.inj same
    exact noArray s e items first alone

theorem rewritten_of_none (none : Site.ofNode? t m n = none) :
    rewritten t parent m n = rewrittenFrom t parent m n.start n.stop n.children := by
  have other : isSite t n = false := by rw [isSite_eq t m, none, Option.isSome_none]
  obtain ⟨k, s, e, cs⟩ := n
  unfold rewritten
  rw [other, if_neg Bool.false_ne_true]
  rfl

theorem rewritten_of_some (found : Site.ofNode? t m n = some s) :
    rewritten t parent m n =
      replacement parent s (rewritten t parent m s.receiver) (s.passed.nodes.map (rewritten t parent m)) := by
  have site : isSite t n = true := by rw [isSite_eq t m, found, Option.isSome_some]
  obtain ⟨start, stop, start', stop', receiver, property, ⟨k, from', upto, arguments⟩, rfl, -, rfl⟩ :=
    Site.ofNode?_eq_some found
  rw [rewritten, if_pos site, rewrittenPassed_eq]
  rfl

theorem rewrittenFrom_cons {cursor stop : Nat} (n : Node) (rest : List Node) :
    rewrittenFrom t parent m cursor stop (n :: rest) =
      slice t.source cursor n.start ++ rewritten t parent m n ++ rewrittenFrom t parent m n.stop stop rest := by
  cases n
  rw [rewrittenFrom, Node.start, Node.stop]

theorem replacedInEach_eq (cs : List Node) : replacedInEach t cs = cs.flatMap (replacedIn t) := by
  induction cs with
  | nil => rfl
  | cons n rest ih => rw [replacedInEach, ih, List.flatMap_cons]

theorem replacedInPassed_eq (cs : List Node) :
    replacedInPassed t cs = (Passed.ofArguments t cs).nodes.flatMap (replacedIn t) := by
  unfold replacedInPassed
  split
  next => rfl
  next s e items => exact replacedInEach_eq items
  next n rest noArray =>
    rw [Passed.nodes_of_others t fun s e items same => ?_, replacedInEach_eq, List.flatMap_cons]
    obtain ⟨first, alone⟩ := List.cons.inj same
    exact noArray s e items first alone

theorem replacedIn_eq (m : Method) (fits : Fits t n) : replacedIn t n = (Site.inOrder t m n).map (·.node) := by
  refine inner_induction m (motive := fun n => replacedIn t n = (Site.inOrder t m n).map (·.node))
    (fun n fits each => ?_) fits
  have all : (inner t m n).flatMap (replacedIn t) = (Site.inOrderAll t m (inner t m n)).map (·.node) := by
    revert each
    generalize inner t m n = cs
    intro each
    induction cs with
    | nil => rfl
    | cons c rest ih =>
      rw [List.flatMap_cons, Site.inOrderAll, List.map_append, each c List.mem_cons_self,
        ih fun x member => each x (List.mem_cons_of_mem c member)]
  rw [inOrder_inner fits, List.map_append, ← all]
  cases found : Site.ofNode? t m n with
  | none =>
    have other : isSite t n = false := by rw [isSite_eq t m, found, Option.isSome_none]
    rw [inner_of_none found]
    obtain ⟨k, s, e, cs⟩ := n
    unfold replacedIn
    rw [other, if_neg Bool.false_ne_true, replacedInEach_eq]
    rfl
  | some s =>
    have site : isSite t n = true := by rw [isSite_eq t m, found, Option.isSome_some]
    rw [inner_of_some found]
    obtain ⟨start, stop, start', stop', receiver, property, ⟨k, from', upto, arguments⟩, rfl, -, rfl⟩ :=
      Site.ofNode?_eq_some found
    rw [replacedIn, if_pos site, replacedInPassed_eq]
    rfl

end

def spanText? (source : List Char) (render : Site → Option (List Char)) (stop : Nat) :
    Nat → List Site → Option (List Char)
  | cursor, [] => Text.slice? source cursor stop
  | cursor, s :: rest =>
    if cursor ≤ s.start && s.stop ≤ stop then do
      let before ← Text.slice? source cursor s.start
      let text ← render s
      let after ← spanText? source render stop s.stop rest
      return before ++ text ++ after
    else spanText? source render stop cursor rest

def renderSite? (source : List Char) (parent : Parent) (sites : List Site) : Nat → Site → Option (List Char)
  | 0, _ => none
  | n + 1, s => do
    let inner (part : Node) := spanText? source (renderSite? source parent sites n) part.stop part.start sites
    let scope ← inner s.receiver
    let arguments ← s.passed.nodes.mapM inner
    return replacement parent s scope arguments

def outermostEdits? (render : Site → Option (List Char)) : Nat → List Site → Option (List Edit)
  | _, [] => some []
  | cursor, s :: rest =>
    if s.start < cursor then outermostEdits? render cursor rest
    else do
      let text ← render s
      let others ← outermostEdits? render s.stop rest
      return ⟨s.start, s.stop, text⟩ :: others

def Edit.apply? (e : Edit) (code : List Char) : Option (List Char) :=
  if e.start ≤ e.stop && isBoundary code e.start && isBoundary code e.stop then some (e.apply code) else none

def applyEdits? (edits : List Edit) (code : List Char) : Option (List Char) :=
  edits.foldr (fun e later => later.bind e.apply?) (some code)

def classEdits? (t : Tree) (c : ClassDefinition) : Option (List Edit) :=
  match Parent.ofDescriptor? c.descriptor with
  | none => some []
  | some parent =>
    let sites := sortedSites t c
    outermostEdits? (renderSite? t.source parent sites sites.length) 0 sites

/-- The code after a substitution in which no step cuts where it must not. -/
def substitute? (t : Tree) (classes : List ClassDefinition) : Option (List Char) := do
  let edits ← classes.mapM (classEdits? t)
  applyEdits? (edits.flatten.mergeSort Edit.before) t.source

theorem spanText_of_checked {source : List Char} {render : Site → List Char} {render? : Site → Option (List Char)}
    (same : ∀ s text, render? s = some text → render s = text) {stop cursor : Nat} {sites : List Site}
    {text : List Char} (checked : spanText? source render? stop cursor sites = some text) :
    spanText source render stop cursor sites = text := by
  induction sites generalizing cursor text with
  | nil => exact Text.slice_of_slice? checked
  | cons s rest ih =>
    rw [spanText?] at checked
    rw [spanText]
    split
    next fits =>
      rw [if_pos fits] at checked
      obtain ⟨before, cut, checked⟩ := Option.bind_eq_some_iff.1 checked
      obtain ⟨middle, rendered, checked⟩ := Option.bind_eq_some_iff.1 checked
      obtain ⟨after, later, checked⟩ := Option.bind_eq_some_iff.1 checked
      rw [Text.slice_of_slice? cut, same s middle rendered, ih later]
      exact Option.some.inj checked
    next fits =>
      rw [if_neg fits] at checked
      exact ih checked

theorem map_of_mapM {α β : Type} {f : α → Option β} {g : α → β} (same : ∀ x y, f x = some y → g x = y)
    {xs : List α} {ys : List β} (mapped : xs.mapM f = some ys) : xs.map g = ys := by
  induction xs generalizing ys with
  | nil => exact Option.some.inj mapped
  | cons x rest ih =>
    rw [List.mapM_cons] at mapped
    obtain ⟨y, first, mapped⟩ := Option.bind_eq_some_iff.1 mapped
    obtain ⟨others, later, mapped⟩ := Option.bind_eq_some_iff.1 mapped
    rw [List.map_cons, same x y first, ih later]
    exact Option.some.inj mapped

theorem renderSite_of_checked {source : List Char} {parent : Parent} {sites : List Site} {n : Nat} {s : Site}
    {text : List Char} (checked : renderSite? source parent sites n s = some text) :
    renderSite source parent sites n s = text := by
  induction n generalizing s text with
  | zero => cases checked
  | succ n ih =>
    rw [renderSite?] at checked
    obtain ⟨scope, first, checked⟩ := Option.bind_eq_some_iff.1 checked
    obtain ⟨arguments, others, checked⟩ := Option.bind_eq_some_iff.1 checked
    have span (part : Node) (text : List Char)
        (cut : spanText? source (renderSite? source parent sites n) part.stop part.start sites = some text) :
        spanText source (renderSite source parent sites n) part.stop part.start sites = text :=
      spanText_of_checked (fun _ _ rendered => ih rendered) cut
    rw [renderSite]
    simp only [span s.receiver scope first, map_of_mapM span others]
    exact Option.some.inj checked

theorem applyEdits?_eq {source : List Char} {edits : List Edit} {lo hi : Nat} (order : InOrder lo edits hi)
    (placed : ∀ e ∈ edits, e.Placed source) : applyEdits? edits source = some (applyEdits edits source) := by
  -- Edits in order can be applied: each finds the text before it as it was.
  induction edits generalizing lo with
  | nil => rfl
  | cons e rest ih =>
    obtain ⟨-, width, others⟩ := order
    obtain ⟨starts, stops⟩ := placed e List.mem_cons_self
    have each : ∀ x ∈ rest, x.Placed source := fun x member => placed x (List.mem_cons_of_mem e member)
    have later := ih others each
    -- the later edits leave the text up to the end of this one, so it can still be cut there
    have kept (n : Nat) (le : n ≤ e.stop) (boundary : isBoundary source n = true) :
        isBoundary (applyEdits rest source) n = true := by
      rw [applyEdits_eq_woven others stops each, isBoundary, Text.takeBytes_takeBytes_append le stops]
      exact boundary
    rw [applyEdits?, List.foldr_cons, ← applyEdits?, later, Option.bind_some, Edit.apply?, kept _ width starts,
      kept _ (Nat.le_refl _) stops]
    simp [width, applyEdits]

section
variable {t : Tree} {parent : Parent} {m : Method} {render : Site → Option (List Char)} {stop : Nat}

theorem spanText?_skip {source : List Char} {cursor : Nat} {sites : List Site} (more : List Site)
    (outside : ∀ s ∈ sites, s.start < cursor ∨ stop < s.stop) :
    spanText? source render stop cursor (sites ++ more) = spanText? source render stop cursor more := by
  induction sites with
  | nil => rfl
  | cons s rest ih =>
    have first := outside s List.mem_cons_self
    have skipped : ¬(decide (cursor ≤ s.start) && decide (s.stop ≤ stop)) = true := by
      simp only [Bool.and_eq_true, decide_eq_true_eq]
      omega
    rw [List.cons_append, spanText?, if_neg skipped]
    exact ih fun x member => outside x (List.mem_cons_of_mem s member)

theorem spanText?_earlier {source : List Char} {cursor mid : Nat} {sites : List Site} {text : List Char}
    (le : cursor ≤ mid) (boundary : isBoundary source cursor = true) (after : ∀ s ∈ sites, mid ≤ s.start)
    (found : spanText? source render stop mid sites = some text) :
    spanText? source render stop cursor sites = some (slice source cursor mid ++ text) := by
  induction sites generalizing text with
  | nil => exact Text.slice?_earlier le boundary found
  | cons s rest ih =>
    have first := after s List.mem_cons_self
    rw [spanText?] at found ⊢
    by_cases fits : s.stop ≤ stop
    · simp only [fits, first, Nat.le_trans le first, decide_true, Bool.and_true, if_true] at found ⊢
      obtain ⟨before, cut, found⟩ := Option.bind_eq_some_iff.1 found
      obtain ⟨middle, rendered, found⟩ := Option.bind_eq_some_iff.1 found
      obtain ⟨later, others, found⟩ := Option.bind_eq_some_iff.1 found
      cases found
      simp [Text.slice?_earlier le boundary cut, rendered, others]
    · simp only [fits, decide_false, Bool.and_false, Bool.false_eq_true, if_false] at found ⊢
      exact ih (fun x member => after x (List.mem_cons_of_mem s member)) found

/-- A scan that comes to a node copies what stands before it, then gives its text, and goes on after it. -/
def Scans (t : Tree) (parent : Parent) (m : Method) (render : Site → Option (List Char)) (stop : Nat) (n : Node) :
    Prop :=
  ∀ {cursor : Nat} {more : List Site} {text : List Char}, cursor ≤ n.start → isBoundary t.source cursor = true →
    n.stop ≤ stop → (∀ s ∈ more, n.stop ≤ s.start) → spanText? t.source render stop n.stop more = some text →
    spanText? t.source render stop cursor (Site.inOrder t m n ++ more) =
      some (slice t.source cursor n.start ++ rewritten t parent m n ++ text)

theorem scans_all {lo hi cursor : Nat} {cs : List Node} {more : List Site} {text : List Char}
    (fits : ∀ c ∈ cs, Fits t c) (placed : Node.placedIn lo hi cs = true)
    (each : ∀ c ∈ cs, Scans t parent m render stop c) (le : cursor ≤ lo) (le' : lo ≤ hi) (high : hi ≤ stop)
    (boundary : isBoundary t.source cursor = true) (boundary' : isBoundary t.source lo = true)
    (after : ∀ s ∈ more, hi ≤ s.start) (found : spanText? t.source render stop hi more = some text) :
    spanText? t.source render stop cursor (Site.inOrderAll t m cs ++ more) =
      some (slice t.source cursor lo ++ rewrittenFrom t parent m lo hi cs ++ text) := by
  induction cs generalizing lo cursor with
  | nil =>
    rw [Site.inOrderAll, List.nil_append, rewrittenFrom, Text.slice_append le le' boundary boundary']
    exact spanText?_earlier (Nat.le_trans le le') boundary after found
  | cons n rest ih =>
    obtain ⟨first, others⟩ := Node.placedIn_cons.1 placed
    have bounds := Node.placed_iff.1 first
    have here := fits n List.mem_cons_self
    have fits' : ∀ c ∈ rest, Fits t c := fun c member => fits c (List.mem_cons_of_mem n member)
    have later := ih fits' others (fun c member => each c (List.mem_cons_of_mem n member)) (Nat.le_refl n.stop)
      bounds.2.2.1 here.boundary.2 here.boundary.2
    rw [Text.slice_self, List.nil_append] at later
    -- the sites of the other nodes come after this one
    have beyond : ∀ s ∈ Site.inOrderAll t m rest ++ more, n.stop ≤ s.start := by
      intro s member
      rcases List.mem_append.1 member with member | member
      · exact ((Site.ordered_of_fits m fits' others bounds.2.2.1).inside s member).1
      · exact Nat.le_trans bounds.2.2.1 (after s member)
    rw [Site.inOrderAll, List.append_assoc, each n List.mem_cons_self (Nat.le_trans le bounds.1) boundary
      (Nat.le_trans bounds.2.2.1 high) beyond later, rewrittenFrom_cons,
      ← Text.slice_append le bounds.1 boundary boundary']
    simp

theorem scans {n : Node} (fits : Fits t n)
    (rendered : ∀ s ∈ Site.inOrder t m n, render s = some (rewritten t parent m s.node)) :
    Scans t parent m render stop n := by
  refine inner_induction m (motive := fun n =>
    (∀ s ∈ Site.inOrder t m n, render s = some (rewritten t parent m s.node)) → Scans t parent m render stop n)
    (fun n fits each rendered => ?_) fits rendered
  intro cursor more text le boundary high after found
  rw [inOrder_inner fits] at rendered
  cases isSite : Site.ofNode? t m n with
  | none =>
    rw [isSite, Option.toList_none, List.nil_append, inner_of_none isSite] at rendered
    rw [inner_of_none isSite] at each
    have inside : ∀ c ∈ n.children, Scans t parent m render stop c := fun c member =>
      each c member fun s below => rendered s (Site.mem_inOrderAll.2 ⟨c, member, below⟩)
    rw [Site.inOrder_eq, isSite, Option.toList_none, List.nil_append, rewritten_of_none isSite]
    exact scans_all (fun c member => fits.child member) fits.placedIn_children inside le fits.width high boundary
      fits.boundary.1 after found
  | some s =>
    have node := (anatomy fits isSite).node
    have starts : s.start = n.start := by rw [Site.start, node]
    have stops : s.stop = n.stop := by rw [Site.stop, node]
    have text' : render s = some (rewritten t parent m n) := by
      rw [rendered s (by rw [isSite]; exact List.mem_cons_self), node]
    -- the sites inside this one start before it ends, so the scan passes over them
    have inside : ∀ x ∈ Site.inOrderAll t m (inner t m n), x.start < n.stop ∨ stop < x.stop := by
      intro x member
      have order := Site.ordered_of_fits m (fun c member => inner_fits fits member) (inner_placed (m := m) fits)
        fits.width
      have bounds := order.inside x member
      omega
    rw [inOrder_inner fits, isSite, Option.toList_some, List.singleton_append, List.cons_append, spanText?]
    simp [starts, stops, le, high, Text.slice?_eq le boundary fits.boundary.1, text', spanText?_skip more inside, found]

/-- The sites before and after those of a node: of the first none is inside the node, and the others follow it. -/
structure Around (first last : List Site) (n : Node) : Prop where
  before : ∀ s ∈ first, s.start < n.start ∨ n.stop < s.stop
  after : ∀ s ∈ last, n.stop ≤ s.start ∧ s.start < s.stop

theorem spanText?_node {n : Node} {first last : List Site} (fits : Fits t n) (around : Around first last n)
    (rendered : ∀ s ∈ Site.inOrder t m n, render s = some (rewritten t parent m s.node)) :
    spanText? t.source render n.stop n.start (first ++ Site.inOrder t m n ++ last) = some (rewritten t parent m n) := by
  -- a site after the node takes up room, so it ends after the node does and is left out
  have nothing : spanText? t.source render n.stop n.stop last = some [] := by
    have outside : ∀ s ∈ last, s.start < n.stop ∨ n.stop < s.stop := fun s member => by
      have beyond := around.after s member
      omega
    rw [← List.append_nil last, spanText?_skip [] outside, spanText?,
      Text.slice?_eq (Nat.le_refl _) fits.boundary.2 fits.boundary.2, Text.slice_self]
  rw [List.append_assoc, spanText?_skip _ around.before,
    scans fits rendered (Nat.le_refl _) fits.boundary.1 (Nat.le_refl _) (fun s member => (around.after s member).1)
      nothing]
  simp [Text.slice_self]

def Renders (t : Tree) (parent : Parent) (m : Method) (n : Node) : Prop :=
  ∀ {first last : List Site} {fuel : Nat}, Around first last n → (Site.inOrder t m n).length ≤ fuel →
    ∀ s ∈ Site.inOrder t m n,
      renderSite? t.source parent (first ++ Site.inOrder t m n ++ last) fuel s = some (rewritten t parent m s.node)

theorem renders_all {lo hi fuel : Nat} {cs : List Node} {first last : List Site} (fits : ∀ c ∈ cs, Fits t c)
    (placed : Node.placedIn lo hi cs = true) (le : lo ≤ hi) (each : ∀ c ∈ cs, Renders t parent m c)
    (before : ∀ s ∈ first, ∀ c ∈ cs, s.start < c.start ∨ c.stop < s.stop)
    (after : ∀ s ∈ last, hi ≤ s.start ∧ s.start < s.stop) (enough : (Site.inOrderAll t m cs).length ≤ fuel) :
    let sites := first ++ Site.inOrderAll t m cs ++ last
    ∀ c ∈ cs, (∀ s ∈ Site.inOrder t m c,
        renderSite? t.source parent sites fuel s = some (rewritten t parent m s.node)) ∧
      spanText? t.source (renderSite? t.source parent sites fuel) c.stop c.start sites =
        some (rewritten t parent m c) := by
  induction cs generalizing lo first with
  | nil => simp
  | cons n rest ih =>
    intro sites c member
    obtain ⟨here, others⟩ := Node.placedIn_cons.1 placed
    have bounds := Node.placed_iff.1 here
    have fits' : ∀ c ∈ rest, Fits t c := fun c member => fits c (List.mem_cons_of_mem n member)
    have lengths : (Site.inOrder t m n).length + (Site.inOrderAll t m rest).length ≤ fuel := by
      rw [Site.inOrderAll, List.length_append] at enough
      exact enough
    have order := Site.ordered_of_fits m fits' others bounds.2.2.1
    rcases List.mem_cons.1 member with rfl | member
    · have split : sites = first ++ Site.inOrder t m c ++ (Site.inOrderAll t m rest ++ last) := by
        simp [sites, Site.inOrderAll]
      have around : Around first (Site.inOrderAll t m rest ++ last) c := by
        refine ⟨fun s member => before s member c List.mem_cons_self, fun s member => ?_⟩
        rcases List.mem_append.1 member with member | member
        · exact ⟨(order.inside s member).1, (order.inside s member).2.1⟩
        · exact ⟨Nat.le_trans bounds.2.2.1 (after s member).1, (after s member).2⟩
      have rendered := each c List.mem_cons_self around (Nat.le_trans (Nat.le_add_right _ _) lengths)
      rw [split]
      exact ⟨rendered, spanText?_node (fits c List.mem_cons_self) around rendered⟩
    · -- for the other parts the sites of this one are among those before
      have split : sites = (first ++ Site.inOrder t m n) ++ Site.inOrderAll t m rest ++ last := by
        simp [sites, Site.inOrderAll]
      have before' : ∀ s ∈ first ++ Site.inOrder t m n, ∀ c ∈ rest, s.start < c.start ∨ c.stop < s.stop := by
        intro s among c member
        rcases List.mem_append.1 among with among | among
        · exact before s among c (List.mem_cons_of_mem n member)
        · have inside := (Site.ordered_inOrder m (fits n List.mem_cons_self)).inside s among
          have follows := Node.placed_iff.1 (Node.placed_of_mem others member)
          omega
      rw [split]
      exact ih fits' others bounds.2.2.1 (fun c member => each c (List.mem_cons_of_mem n member)) before'
        (Nat.le_trans (Nat.le_add_left _ _) lengths) c member

theorem mapM_of_forall {α β : Type} {f : α → Option β} {g : α → β} {xs : List α} (each : ∀ x ∈ xs, f x = some (g x)) :
    xs.mapM f = some (xs.map g) := by
  induction xs with
  | nil => rfl
  | cons x rest ih =>
    rw [List.mapM_cons, each x List.mem_cons_self, ih fun y member => each y (List.mem_cons_of_mem x member)]
    rfl

theorem renders {n : Node} (fits : Fits t n) : Renders t parent m n := by
  refine inner_induction m (motive := Renders t parent m) (fun n fits each => ?_) fits
  intro first last fuel around enough
  -- the list of sites stays the same on the way down: those of the node's other parts move to either side
  have fits' : ∀ c ∈ inner t m n, Fits t c := fun c member => inner_fits fits member
  rw [inOrder_inner fits] at enough ⊢
  cases isSite : Site.ofNode? t m n with
  | none =>
    rw [isSite, Option.toList_none, List.nil_append] at enough
    have before : ∀ s ∈ first, ∀ c ∈ inner t m n, s.start < c.start ∨ c.stop < s.stop := by
      intro s among c member
      have outside := around.before s among
      have inside := Node.placed_iff.1 (Node.placed_of_mem (inner_placed fits) member)
      omega
    intro s member
    rw [Option.toList_none, List.nil_append] at member ⊢
    obtain ⟨c, child, below⟩ := Site.mem_inOrderAll.1 member
    exact (renders_all fits' (inner_placed fits) fits.width each before around.after enough c child).1 s below
  | some site =>
    have shape := anatomy fits isSite
    -- each level of nesting uses one step of the bound and holds at least one site
    rw [isSite, Option.toList_some, List.singleton_append, List.length_cons] at enough
    obtain ⟨fuel, rfl⟩ : ∃ k, fuel = k + 1 := ⟨fuel - 1, by omega⟩
    -- a scan over a part meets the site itself first, and has to pass over it
    have before : ∀ s ∈ first ++ [site], ∀ c ∈ inner t m n, s.start < c.start ∨ c.stop < s.stop := by
      intro s among c member
      have inside := Node.placed_iff.1 (Node.placed_of_mem (inner_placed fits) member)
      rcases List.mem_append.1 among with among | among
      · have outside := around.before s among
        omega
      · obtain rfl := List.mem_singleton.1 among
        rw [Site.start, Site.stop, shape.node]
        exact shape.narrower (inner_of_some isSite ▸ member)
    have split : first ++ ((some site).toList ++ Site.inOrderAll t m (inner t m n)) ++ last =
        first ++ [site] ++ Site.inOrderAll t m (inner t m n) ++ last := by simp
    rw [split]
    intro s member
    rw [Option.toList_some, List.singleton_append] at member
    rcases List.mem_cons.1 member with rfl | member
    · have parts := renders_all fits' (inner_placed fits) fits.width each before around.after
        (Nat.le_of_succ_le_succ enough)
      rw [inner_of_some isSite] at parts ⊢
      dsimp only at parts
      generalize first ++ [s] ++ Site.inOrderAll t m (s.receiver :: s.passed.nodes) ++ last = sites at parts ⊢
      have passed := mapM_of_forall fun c member => (parts c (List.mem_cons_of_mem s.receiver member)).2
      rw [shape.node, rewritten_of_some isSite, renderSite?]
      simp [(parts s.receiver List.mem_cons_self).2, passed]
    · obtain ⟨c, child, below⟩ := Site.mem_inOrderAll.1 member
      exact (renders_all fits' (inner_placed fits) fits.width each before around.after (Nat.le_of_succ_le enough) c
        child).1 s below

end

end ClassLinker.ParentCall
