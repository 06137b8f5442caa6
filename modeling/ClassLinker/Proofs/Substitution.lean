import ClassLinker.ParentCall
import Mathlib.Data.List.Basic

set_option autoImplicit false

namespace ClassLinker.Text

theorem takeBytes_takeBytes_append {m n : Nat} {cs : List Char} (le : m ≤ n)
    (boundary : isBoundary cs n = true) (more : List Char) :
    takeBytes m (takeBytes n cs ++ more) = takeBytes m cs := by
  induction cs generalizing m n with
  | nil =>
    have zero : n = 0 := by simpa [isBoundary, takeBytes, byteSize, eq_comm] using boundary
    obtain rfl : m = 0 := by omega
    cases more with
    | nil => rfl
    | cons c rest => simp [takeBytes, Nat.not_le.mpr c.utf8Size_pos]
  | cons c rest ih =>
    by_cases fits : c.utf8Size ≤ n
    next =>
      have inner : isBoundary rest (n - c.utf8Size) = true := by
        simp only [isBoundary, takeBytes, if_pos fits, byteSize, decide_eq_true_eq] at boundary ⊢
        omega
      simp only [takeBytes, if_pos fits, List.cons_append]
      split
      next => rw [ih (by omega) inner]
      next => rfl
    next =>
      have zero : n = 0 := by
        simpa [isBoundary, takeBytes, if_neg fits, byteSize, eq_comm] using boundary
      obtain rfl : m = 0 := by omega
      have positive := c.utf8Size_pos
      cases more with
      | nil => simp [takeBytes, fits, Nat.not_le.mpr positive]
      | cons d more => simp [takeBytes, fits, Nat.not_le.mpr positive, Nat.not_le.mpr d.utf8Size_pos]

theorem dropBytes_takeBytes_append {n : Nat} {cs : List Char} (boundary : isBoundary cs n = true)
    (more : List Char) : dropBytes n (takeBytes n cs ++ more) = more := by
  have size : byteSize (takeBytes n cs) = n := by simpa [isBoundary] using boundary
  have cut := dropBytes_byteSize (takeBytes n cs) more
  rwa [size] at cut

theorem takeBytes_append_slice {m n : Nat} {cs : List Char} (le : m ≤ n) (boundary : isBoundary cs m = true) :
    takeBytes m cs ++ slice cs m n = takeBytes n cs := by
  induction cs generalizing m n with
  | nil => rfl
  | cons c rest ih =>
    by_cases fits : c.utf8Size ≤ m
    next =>
      have inner : isBoundary rest (m - c.utf8Size) = true := by
        simp only [isBoundary, takeBytes, if_pos fits, byteSize, decide_eq_true_eq] at boundary ⊢
        omega
      have step := ih (n := n - c.utf8Size) (by omega) inner
      have width : n - c.utf8Size - (m - c.utf8Size) = n - m := by omega
      simp only [slice, width] at step
      simp only [slice, takeBytes, dropBytes, if_pos fits, if_pos (show c.utf8Size ≤ n by omega),
        List.cons_append, step]
    next =>
      have zero : m = 0 := by
        simpa [isBoundary, takeBytes, if_neg fits, byteSize, eq_comm] using boundary
      subst zero
      simp [slice, dropBytes, takeBytes, fits]

end ClassLinker.Text

namespace ClassLinker.Script.Node

theorem placed_widen {lo lo' hi hi' : Nat} {n : Node} (placed : n.placed lo hi = true) (low : lo' ≤ lo)
    (high : hi ≤ hi') : n.placed lo' hi' = true := by
  cases n
  simp only [Node.placed, Bool.and_eq_true, decide_eq_true_eq] at placed ⊢
  obtain ⟨⟨⟨starts, width⟩, stops⟩, children⟩ := placed
  exact ⟨⟨⟨Nat.le_trans low starts, width⟩, Nat.le_trans stops high⟩, children⟩

theorem placed_of_mem {lo hi : Nat} {n : Node} {cs : List Node} (placed : placedIn lo hi cs = true)
    (member : n ∈ cs) : n.placed lo hi = true := by
  induction cs generalizing lo with
  | nil => cases member
  | cons first rest ih =>
    obtain ⟨k, s, e, below⟩ := first
    simp only [placedIn, Bool.and_eq_true] at placed
    have bounds := placed.1
    simp only [Node.placed, Bool.and_eq_true, decide_eq_true_eq] at bounds
    rcases List.mem_cons.mp member with rfl | member
    · exact placed.1
    · exact placed_widen (ih placed.2 member) (Nat.le_trans bounds.1.1.1 bounds.1.1.2) (Nat.le_refl hi)

theorem placed_iff {lo hi : Nat} {n : Node} :
    n.placed lo hi = true ↔
      lo ≤ n.start ∧ n.start ≤ n.stop ∧ n.stop ≤ hi ∧ placedIn n.start n.stop n.children = true := by
  cases n
  simp [placed, start, stop, children, and_assoc]

theorem placedIn_cons {lo hi : Nat} {n : Node} {rest : List Node} :
    placedIn lo hi (n :: rest) = true ↔ n.placed lo hi = true ∧ placedIn n.stop hi rest = true := by
  cases n
  simp [placedIn, stop]

theorem placed_to_stop {lo hi : Nat} {n : Node} (placed : n.placed lo hi = true) : n.placed lo n.stop = true := by
  obtain ⟨low, width, -, inside⟩ := placed_iff.1 placed
  exact placed_iff.2 ⟨low, width, Nat.le_refl _, inside⟩

theorem placedIn_widen {lo lo' hi hi' : Nat} {cs : List Node} (placed : placedIn lo hi cs = true) (low : lo' ≤ lo)
    (high : hi ≤ hi') : placedIn lo' hi' cs = true := by
  induction cs generalizing lo lo' with
  | nil => rfl
  | cons n rest ih =>
    obtain ⟨first, others⟩ := placedIn_cons.1 placed
    exact placedIn_cons.2 ⟨placed_widen first low high, ih others (Nat.le_refl _)⟩

theorem all_of_mem {p : Node → Bool} {n : Node} {cs : List Node} (holds : allOf p cs = true) (member : n ∈ cs) :
    n.all p = true := by
  induction cs with
  | nil => cases member
  | cons first rest ih =>
    simp only [allOf, Bool.and_eq_true] at holds
    rcases List.mem_cons.mp member with rfl | member
    · exact holds.1
    · exact ih holds.2 member

inductive Part (root : Node) : Node → Prop where
  | whole : Part root root
  | child {parent n : Node} : Part root parent → n ∈ parent.children → Part root n

namespace Part

variable {root middle n : Node}

theorem trans (outer : Part root middle) (inner : Part middle n) : Part root n := by
  induction inner with
  | whole => exact outer
  | child _ member ih => exact ih.child member

theorem placed {lo hi : Nat} (part : Part root n) (holds : root.placed lo hi = true) : n.placed lo hi = true := by
  induction part with
  | whole => exact holds
  | @child parent n _ member ih =>
    obtain ⟨k, s, e, cs⟩ := parent
    simp only [Node.placed, Bool.and_eq_true, decide_eq_true_eq] at ih
    exact placed_widen (placed_of_mem ih.2 member) ih.1.1.1 ih.1.2

theorem all {p : Node → Bool} (part : Part root n) (holds : root.all p = true) : n.all p = true := by
  induction part with
  | whole => exact holds
  | @child parent n _ member ih =>
    obtain ⟨k, s, e, cs⟩ := parent
    simp only [Node.all, Bool.and_eq_true] at ih
    exact all_of_mem ih.2 member

end Part

end ClassLinker.Script.Node

namespace ClassLinker.ParentCall

open Script (Node Tree)
open Text (isBoundary slice takeBytes dropBytes)

def InOrder (lo : Nat) : List Edit → Nat → Prop
  | [], hi => lo ≤ hi
  | e :: rest, hi => lo ≤ e.start ∧ e.start ≤ e.stop ∧ InOrder e.stop rest hi

def Edit.Placed (source : List Char) (e : Edit) : Prop :=
  isBoundary source e.start = true ∧ isBoundary source e.stop = true

/-- The text from an offset on, with the spans of the edits replaced and all else as it is. -/
def woven (source : List Char) : Nat → List Edit → List Char
  | cursor, [] => dropBytes cursor source
  | cursor, e :: rest => slice source cursor e.start ++ e.text ++ woven source e.stop rest

theorem InOrder.append {lo mid hi : Nat} {xs ys : List Edit} (left : InOrder lo xs mid)
    (right : InOrder mid ys hi) : InOrder lo (xs ++ ys) hi := by
  induction xs generalizing lo with
  | nil =>
    cases ys with
    | nil => exact Nat.le_trans left right
    | cons e rest => exact ⟨Nat.le_trans left right.1, right.2⟩
  | cons e rest ih => exact ⟨left.1, left.2.1, ih left.2.2⟩

theorem applyEdits_eq_woven {source : List Char} {edits : List Edit} {lo hi : Nat}
    (order : InOrder lo edits hi) (boundary : isBoundary source lo = true)
    (placed : ∀ e ∈ edits, e.Placed source) :
    applyEdits edits source = takeBytes lo source ++ woven source lo edits := by
  -- Edits are applied last one first, so each one finds the text before it as it was.
  induction edits generalizing lo with
  | nil => exact (Text.takeBytes_append_dropBytes lo source).symm
  | cons e rest ih =>
    obtain ⟨first, width, others⟩ := order
    obtain ⟨starts, stops⟩ := placed e List.mem_cons_self
    have later := ih others stops fun x member => placed x (List.mem_cons_of_mem e member)
    calc applyEdits (e :: rest) source
        = e.apply (takeBytes e.stop source ++ woven source e.stop rest) := by rw [← later]; rfl
      _ = takeBytes e.start source ++ e.text ++ woven source e.stop rest := by
          rw [Edit.apply, Text.takeBytes_takeBytes_append width stops, Text.dropBytes_takeBytes_append stops]
      _ = takeBytes lo source ++ woven source lo (e :: rest) := by
          rw [← Text.takeBytes_append_slice first boundary]
          simp [woven]

namespace Site

def Inside (lo hi : Nat) (s : Site) : Prop := lo ≤ s.start ∧ s.start ≤ s.stop ∧ s.stop ≤ hi

def Nest (a b : Site) : Prop :=
  a.stop ≤ b.start ∨ b.stop ≤ a.start ∨ (b.start ≤ a.start ∧ a.stop ≤ b.stop) ∨ a.start ≤ b.start ∧ b.stop ≤ a.stop

theorem Nest.symm {a b : Site} (nest : Nest a b) : Nest b a := by
  unfold Nest at nest ⊢
  omega

theorem Inside.widen {lo lo' hi hi' : Nat} {s : Site} (inside : s.Inside lo hi) (low : lo' ≤ lo)
    (high : hi ≤ hi') : s.Inside lo' hi' :=
  ⟨Nat.le_trans low inside.1, inside.2.1, Nat.le_trans inside.2.2 high⟩

end Site

structure Nested (lo hi : Nat) (sites : List Site) : Prop where
  inside : ∀ s ∈ sites, s.Inside lo hi
  nest : sites.Pairwise Site.Nest

namespace Nested

variable {lo mid hi : Nat} {xs ys : List Site}

theorem nil : Nested lo hi [] := ⟨by simp, List.Pairwise.nil⟩

theorem widen {lo' hi' : Nat} (nested : Nested lo hi xs) (low : lo' ≤ lo) (high : hi ≤ hi') :
    Nested lo' hi' xs :=
  ⟨fun s member => (nested.inside s member).widen low high, nested.nest⟩

theorem append (left : Nested lo mid xs) (right : Nested mid hi ys) (low : lo ≤ mid) (high : mid ≤ hi) :
    Nested lo hi (xs ++ ys) := by
  refine ⟨?_, List.pairwise_append.mpr ⟨left.nest, right.nest, ?_⟩⟩
  · intro s member
    rcases List.mem_append.mp member with member | member
    · exact (left.inside s member).widen (Nat.le_refl lo) high
    · exact (right.inside s member).widen low (Nat.le_refl hi)
  · intro a inLeft b inRight
    exact .inl (Nat.le_trans (left.inside a inLeft).2.2 (right.inside b inRight).1)

theorem perm (nested : Nested lo hi xs) (same : xs.Perm ys) : Nested lo hi ys :=
  ⟨fun s member => nested.inside s (same.mem_iff.mpr member),
   (same.pairwise_iff fun {_ _} => Site.Nest.symm).mp nested.nest⟩

theorem sublist (nested : Nested lo hi ys) (part : xs.Sublist ys) : Nested lo hi xs :=
  ⟨fun s member => nested.inside s (part.subset member), nested.nest.sublist part⟩

theorem enclose {s : Site} (nested : Nested s.start s.stop xs) (inside : s.Inside lo hi) :
    Nested lo hi (s :: xs) := by
  refine ⟨?_, List.pairwise_cons.mpr ⟨?_, nested.nest⟩⟩
  · intro x member
    rcases List.mem_cons.mp member with rfl | member
    · exact inside
    · exact (nested.inside x member).widen inside.1 inside.2.2
  · intro x member
    exact .inr (.inr (.inr ⟨(nested.inside x member).1, (nested.inside x member).2.2⟩))

end Nested

theorem Site.ofNode?_node {t : Tree} {m : Method} {n : Node} {s : Site} (found : ofNode? t m n = some s) :
    s.node = n := by
  unfold ofNode? at found
  split at found
  next =>
    split at found
    next => cases found; rfl
    next => cases found
  next => cases found

structure SitesIn (n : Node) (sites : List Site) : Prop where
  nested : ∀ {lo hi : Nat}, n.placed lo hi = true → Nested lo hi sites
  parts : ∀ s ∈ sites, n.Part s.node

structure SitesAmong (cs : List Node) (sites : List Site) : Prop where
  nested : ∀ {lo hi : Nat}, Node.placedIn lo hi cs = true → Nested lo hi sites
  parts : ∀ s ∈ sites, ∃ n ∈ cs, n.Part s.node

theorem SitesIn.nil (n : Node) : SitesIn n [] := ⟨fun _ => .nil, by simp⟩

theorem SitesIn.of_part {root n : Node} {sites : List Site} (found : SitesIn n sites) (part : root.Part n) :
    SitesIn root sites :=
  ⟨fun placed => found.nested (part.placed placed), fun s member => part.trans (found.parts s member)⟩

theorem SitesAmong.nil : SitesAmong [] [] := ⟨fun _ => .nil, by simp⟩

theorem SitesAmong.perm {cs : List Node} {xs ys : List Site} (found : SitesAmong cs xs) (same : xs.Perm ys) :
    SitesAmong cs ys :=
  ⟨fun placed => (found.nested placed).perm same, fun s member => found.parts s (same.mem_iff.mpr member)⟩

theorem SitesAmong.cons {n : Node} {rest : List Node} {xs ys : List Site} (first : SitesIn n xs)
    (others : SitesAmong rest ys) : SitesAmong (n :: rest) (xs ++ ys) := by
  obtain ⟨k, s, e, cs⟩ := n
  constructor
  · intro lo hi placed
    simp only [Node.placedIn, Bool.and_eq_true] at placed
    have bounds := placed.1
    simp only [Node.placed, Bool.and_eq_true, decide_eq_true_eq] at bounds
    obtain ⟨⟨⟨low, width⟩, high⟩, children⟩ := bounds
    have here : (Node.mk k s e cs).placed lo e = true := by
      simp only [Node.placed, Bool.and_eq_true, decide_eq_true_eq]
      exact ⟨⟨⟨low, width⟩, Nat.le_refl e⟩, children⟩
    exact (first.nested here).append (others.nested placed.2) (Nat.le_trans low width) high
  · intro x member
    rcases List.mem_append.mp member with member | member
    · exact ⟨_, List.mem_cons_self, first.parts x member⟩
    · obtain ⟨n, among, part⟩ := others.parts x member
      exact ⟨n, List.mem_cons_of_mem _ among, part⟩

theorem SitesAmong.below {cs : List Node} {sites : List Site} (found : SitesAmong cs sites) (k : Script.Kind)
    (s e : Nat) : SitesIn (.mk k s e cs) sites := by
  constructor
  · intro lo hi placed
    simp only [Node.placed, Bool.and_eq_true, decide_eq_true_eq] at placed
    exact (found.nested placed.2).widen placed.1.1.1 placed.1.2
  · intro x member
    obtain ⟨n, among, part⟩ := found.parts x member
    exact (Node.Part.whole.child among).trans part

mutual

theorem Site.sitesIn_below (t : Tree) (m : Method) : ∀ n : Node, SitesIn n (below t m n)
  | .mk k s e cs => by
    have inner := sitesAmong_belowAll t m cs
    have children := inner.below k s e
    rw [Site.below]
    cases found : ofNode? t m (.mk k s e cs) with
    | none => exact children
    | some site =>
      have same := ofNode?_node found
      constructor
      · intro lo hi placed
        simp only [Node.placed, Bool.and_eq_true, decide_eq_true_eq] at placed
        have starts : site.start = s := by rw [start, same]; rfl
        have stops : site.stop = e := by rw [stop, same]; rfl
        refine Nested.enclose (s := site) (by rw [starts, stops]; exact inner.nested placed.2) ?_
        rw [Inside, starts, stops]
        exact ⟨placed.1.1.1, placed.1.1.2, placed.1.2⟩
      · intro x member
        rcases List.mem_cons.mp member with rfl | member
        · rw [same]
          exact .whole
        · exact children.parts x member

theorem Site.sitesAmong_belowAll (t : Tree) (m : Method) : ∀ cs : List Node, SitesAmong cs (belowAll t m cs)
  | [] => by simpa only [belowAll] using SitesAmong.nil
  | n :: rest => by
    rw [belowAll]
    exact (SitesAmong.cons (sitesIn_below t m n) (sitesAmong_belowAll t m rest)).perm List.perm_append_comm

end

def sitesOfMethods (t : Tree) (methods : List Method) : List Site :=
  methods.flatMap fun m => Site.below t m m.body

@[simp] theorem sitesOfMethods_nil (t : Tree) : sitesOfMethods t [] = [] := rfl

theorem sitesIn_method (t : Tree) (n : Node) (name : String) (side : Side) :
    SitesIn n (sitesOfMethods t [⟨name, side, n⟩]) := by
  simpa [sitesOfMethods] using Site.sitesIn_below t ⟨name, side, n⟩ n

theorem part_value (s e : Nat) (key value : Node) : (Node.mk .pair s e [key, value]).Part value :=
  .child .whole (by simp [Node.children])

theorem sitesAmong_methodsIn (t : Tree) (side : Side) (cs : List Node) :
    SitesAmong cs (sitesOfMethods t (methodsIn t side cs)) := by
  refine methodsIn.induct t (fun side n => SitesIn n (sitesOfMethods t (methodsOf t side n)))
    (fun side cs => SitesAmong cs (sitesOfMethods t (methodsIn t side cs))) ?_ ?_ ?_ ?_ ?_ ?_ ?_ ?_ ?_ ?_ ?_ side cs
  case _ => intro side s e key kind s' e' members unnamed; simpa [methodsOf, unnamed] using SitesIn.nil _
  case _ =>
    intro side s e key kind s' e' members name named function
    simp only [methodsOf, named, function, if_true]
    exact (sitesIn_method t _ name side).of_part (part_value s e key _)
  case _ =>
    intro side s e key kind s' e' members noFunction block named ih
    have inner := ih.below kind s' e'
    simp only [methodsOf, named, noFunction, block, if_true, if_false, Bool.false_eq_true]
    exact inner.of_part (part_value s e key _)
  case _ =>
    intro side s e key kind s' e' members name named noFunction block noPrivates statics ih
    have inner := ih.below kind s' e'
    simp only [methodsOf, named, noFunction, block, noPrivates, statics, if_true, if_false, Bool.false_eq_true]
    exact inner.of_part (part_value s e key _)
  case _ =>
    intro side s e key kind s' e' members name named noFunction block noPrivates noStatics
    simpa [methodsOf, named, noFunction, block, noPrivates, noStatics] using SitesIn.nil _
  case _ =>
    intro side s e key kind s' e' members name named noFunction noBlock
    simpa [methodsOf, named, noFunction, noBlock] using SitesIn.nil _
  case _ =>
    intro side s e children name named
    simp only [methodsOf, named]
    exact sitesIn_method t _ name side
  case _ => intro side s e children unnamed; simpa [methodsOf, unnamed] using SitesIn.nil _
  case _ => intro n side noPair noMethod; simpa [methodsOf] using SitesIn.nil _
  case _ => intro side; simpa [methodsIn, sitesOfMethods] using SitesAmong.nil
  case _ =>
    intro side n rest first others
    rw [methodsIn, sitesOfMethods, List.flatMap_append]
    exact .cons first others

theorem sitesIn_config (t : Tree) (c : ClassDefinition) : SitesIn c.config (sitesOf t c) := by
  obtain ⟨descriptor, ⟨k, s, e, members⟩, diagnostics⟩ := c
  exact (sitesAmong_methodsIn t .prototype members).below k s e

theorem outermostEdits_spec {hi : Nat} (render : Site → List Char) (last : Site) (sites : List Site)
    (sorted : (last :: sites).Pairwise fun a b => Site.before a b = true)
    (nested : Nested last.start hi (last :: sites)) :
    InOrder last.stop (outermostEdits render last.stop sites) hi ∧
      ∀ s ∈ sites, s.Inside last.start last.stop ∨
        ∃ e ∈ outermostEdits render last.stop sites, s.Inside e.start e.stop := by
  -- Among sites in source order, one that starts before the end of the last outermost site is inside it.
  induction sites generalizing last with
  | nil => exact ⟨(nested.inside last List.mem_cons_self).2.2, by simp⟩
  | cons s rest ih =>
    obtain ⟨afterLast, sortedRest⟩ := List.pairwise_cons.mp sorted
    obtain ⟨nestLast, nestRest⟩ := List.pairwise_cons.mp nested.nest
    have follows := afterLast s List.mem_cons_self
    have nests := nestLast s List.mem_cons_self
    have within := nested.inside s (by simp)
    simp only [Site.before, Bool.or_eq_true, Bool.and_eq_true, decide_eq_true_eq] at follows
    rw [outermostEdits]
    split
    next early =>
      -- `s` starts before `last` ends, so of the ways to nest only being inside is left
      have skipped := ih last
        (List.pairwise_cons.mpr ⟨fun x member => afterLast x (List.mem_cons_of_mem s member),
          (List.pairwise_cons.mp sortedRest).2⟩)
        ⟨fun x member => nested.inside x (by
            rcases List.mem_cons.mp member with rfl | member <;> simp [*]),
          List.pairwise_cons.mpr ⟨fun x member => nestLast x (List.mem_cons_of_mem s member),
            (List.pairwise_cons.mp nestRest).2⟩⟩
      refine ⟨skipped.1, fun x member => ?_⟩
      rcases List.mem_cons.mp member with rfl | member
      · -- equal spans count as inside
        unfold Site.Nest at nests
        unfold Site.Inside at within ⊢
        exact .inl (by omega)
      · exact skipped.2 x member
    next late =>
      -- from here on the sites follow `s`, which takes the place of `last`
      have taken := ih s sortedRest
        ⟨fun x member => ⟨by
            rcases List.mem_cons.mp member with rfl | member
            · exact Nat.le_refl _
            · have order := (List.pairwise_cons.mp sortedRest).1 x member
              simp only [Site.before, Bool.or_eq_true, Bool.and_eq_true, decide_eq_true_eq] at order
              omega,
            (nested.inside x (List.mem_cons_of_mem last member)).2⟩, nestRest⟩
      refine ⟨⟨Nat.le_of_not_lt late, within.2.1, taken.1⟩, fun x member => .inr ?_⟩
      rcases List.mem_cons.mp member with rfl | member
      · exact ⟨_, List.mem_cons_self, Nat.le_refl _, within.2.1, Nat.le_refl _⟩
      · rcases taken.2 x member with inside | ⟨e, found, inside⟩
        · exact ⟨_, List.mem_cons_self, inside⟩
        · exact ⟨e, List.mem_cons_of_mem _ found, inside⟩

theorem mem_outermostEdits {render : Site → List Char} {sites : List Site} {cursor : Nat} {e : Edit}
    (member : e ∈ outermostEdits render cursor sites) : ∃ s ∈ sites, e = ⟨s.start, s.stop, render s⟩ := by
  induction sites generalizing cursor with
  | nil => simp [outermostEdits] at member
  | cons s rest ih =>
    rw [outermostEdits] at member
    split at member
    next =>
      obtain ⟨x, found, same⟩ := ih member
      exact ⟨x, List.mem_cons_of_mem s found, same⟩
    next =>
      rcases List.mem_cons.mp member with rfl | member
      · exact ⟨s, List.mem_cons_self, rfl⟩
      · obtain ⟨x, found, same⟩ := ih member
        exact ⟨x, List.mem_cons_of_mem s found, same⟩

theorem Site.before_trans (a b c : Site) (left : before a b = true) (right : before b c = true) :
    before a c = true := by
  simp only [before, Bool.or_eq_true, Bool.and_eq_true, decide_eq_true_eq] at left right ⊢
  omega

theorem Site.before_total (a b : Site) : (before a b || before b a) = true := by
  simp only [before, Bool.or_eq_true, Bool.and_eq_true, decide_eq_true_eq]
  omega

def sortedSites (t : Tree) (c : ClassDefinition) : List Site := Site.arrange (sitesOf t c)

theorem eraseRepsBy_loop_sublist {α : Type} (r : α → α → Bool) (last : α) (rest done : List α) :
    (List.eraseRepsBy.loop r last rest done).Sublist (done.reverse ++ last :: rest) := by
  induction rest generalizing last done with
  | nil => simp [List.eraseRepsBy.loop]
  | cons next rest ih =>
    rw [List.eraseRepsBy.loop]
    cases r last next with
    | true => exact (ih last done).trans (.append (.refl _) (.cons_cons last (.cons next (.refl rest))))
    | false => simpa using ih next (last :: done)

theorem Site.arrange_sublist (found : List Site) : (arrange found).Sublist (found.mergeSort before) := by
  unfold arrange
  cases found.mergeSort before with
  | nil => exact .slnil
  | cons s rest => exact eraseRepsBy_loop_sublist _ s rest []

theorem mem_of_mem_sortedSites {t : Tree} {c : ClassDefinition} {s : Site} (member : s ∈ sortedSites t c) :
    s ∈ sitesOf t c :=
  (List.mergeSort_perm (sitesOf t c) Site.before).mem_iff.1 ((Site.arrange_sublist _).subset member)

theorem outermostEdits_sorted {lo hi : Nat} (t : Tree) (c : ClassDefinition) (render : Site → List Char)
    (placed : c.config.placed lo hi = true) (le : lo ≤ hi) :
    InOrder lo (outermostEdits render 0 (sortedSites t c)) hi ∧
      ∀ s ∈ sortedSites t c, ∃ e ∈ outermostEdits render 0 (sortedSites t c), s.Inside e.start e.stop := by
  have part : (sortedSites t c).Sublist ((sitesOf t c).mergeSort Site.before) := Site.arrange_sublist _
  have sorted : (sortedSites t c).Pairwise fun a b => Site.before a b = true :=
    (List.pairwise_mergeSort Site.before_trans Site.before_total (sitesOf t c)).sublist part
  have nested : Nested lo hi (sortedSites t c) :=
    (((sitesIn_config t c).nested placed).perm (List.mergeSort_perm (sitesOf t c) Site.before).symm).sublist part
  cases all : sortedSites t c with
  | nil => exact ⟨le, by simp⟩
  | cons s rest =>
    rw [all] at sorted nested
    have within := nested.inside s List.mem_cons_self
    -- the other sites come after the first one, so they start no earlier
    have fromFirst : Nested s.start hi (s :: rest) := by
      refine ⟨fun x member => ⟨?_, (nested.inside x member).2⟩, nested.nest⟩
      rcases List.mem_cons.mp member with rfl | member
      · exact Nat.le_refl _
      · have order := (List.pairwise_cons.mp sorted).1 x member
        simp only [Site.before, Bool.or_eq_true, Bool.and_eq_true, decide_eq_true_eq] at order
        omega
    obtain ⟨order, covered⟩ := outermostEdits_spec render s rest sorted fromFirst
    rw [outermostEdits, if_neg (Nat.not_lt_zero s.start)]
    refine ⟨⟨within.1, within.2.1, order⟩, fun x member => ?_⟩
    rcases List.mem_cons.mp member with rfl | member
    · exact ⟨_, List.mem_cons_self, Nat.le_refl _, within.2.1, Nat.le_refl _⟩
    · rcases covered x member with inside | ⟨e, found, inside⟩
      · exact ⟨_, List.mem_cons_self, inside⟩
      · exact ⟨e, List.mem_cons_of_mem _ found, inside⟩

def classOf? (t : Tree) (systems : List String) (file : String) (statement : Node) : Option ClassDefinition :=
  (t.defineCall? systems statement).bind (ClassDefinition.ofCall? t file)

theorem all_eq_filterMap (t : Tree) (systems : List String) (file : String) :
    ClassDefinition.all t systems file = t.root.children.filterMap (classOf? t systems file) := by
  rw [ClassDefinition.all, Tree.defineCalls, List.filterMap_filterMap]
  rfl

theorem part_arguments (s e s' e' : Nat) (callee arguments : Node) (rest : List Node) :
    (Node.mk .expressionStatement s e (.mk .callExpression s' e' [callee, arguments] :: rest)).Part arguments := by
  have call : (Node.mk .expressionStatement s e (.mk .callExpression s' e' [callee, arguments] :: rest)).Part
      (.mk .callExpression s' e' [callee, arguments]) := Node.Part.whole.child List.mem_cons_self
  exact call.child (by simp [Node.children])

theorem part_config {t : Tree} {systems : List String} {file : String} {statement : Node} {c : ClassDefinition}
    (found : classOf? t systems file statement = some c) : statement.Part c.config := by
  obtain ⟨call, isCall, isClass⟩ := Option.bind_eq_some_iff.mp found
  have argument : c.config ∈ call.arguments := by
    unfold ClassDefinition.ofCall? at isClass
    split at isClass
    next nameNode config rest arguments =>
      split at isClass
      next => cases isClass
      next =>
        split at isClass
        next => cases isClass
        next => cases isClass; simp [arguments]
    next => cases isClass
  unfold Tree.defineCall? at isCall
  split at isCall
  next s e s' e' callee arguments rest =>
    split at isCall
    next =>
      split at isCall
      next =>
        cases isCall
        exact (part_arguments s e s' e' _ arguments rest).child argument
      next => cases isCall
    next => cases isCall
  next => cases isCall

def editAt (t : Tree) (parent : Parent) (c : ClassDefinition) (s : Site) : Edit :=
  ⟨s.start, s.stop, renderSite t.source parent (sortedSites t c) (sortedSites t c).length s⟩

theorem classEdits_none {t : Tree} {file : String} {c : ClassDefinition}
    (orphan : Parent.ofDescriptor? c.descriptor = none) : (classEdits t file c).edits = [] := by
  simp [classEdits, orphan]

theorem classEdits_some {t : Tree} {file : String} {c : ClassDefinition} {parent : Parent}
    (has : Parent.ofDescriptor? c.descriptor = some parent) :
    (classEdits t file c).edits =
      outermostEdits (fun s => (editAt t parent c s).text) 0 (sortedSites t c) := by
  simp [classEdits, has, editAt, sortedSites]

theorem mem_classEdits {t : Tree} {file : String} {c : ClassDefinition} {e : Edit}
    (member : e ∈ (classEdits t file c).edits) :
    ∃ parent, Parent.ofDescriptor? c.descriptor = some parent ∧ ∃ s ∈ sortedSites t c, e = editAt t parent c s := by
  cases has : Parent.ofDescriptor? c.descriptor with
  | none => simp [classEdits_none has] at member
  | some parent =>
    rw [classEdits_some has] at member
    obtain ⟨s, found, same⟩ := mem_outermostEdits member
    exact ⟨parent, rfl, s, found, same⟩

theorem classEdits_inOrder {lo hi : Nat} {t : Tree} {file : String} {c : ClassDefinition}
    (placed : c.config.placed lo hi = true) (le : lo ≤ hi) : InOrder lo (classEdits t file c).edits hi := by
  cases has : Parent.ofDescriptor? c.descriptor with
  | none => simpa [classEdits_none has, InOrder] using le
  | some parent =>
    rw [classEdits_some has]
    exact (outermostEdits_sorted t c _ placed le).1

def gatheredEdits (t : Tree) (file : String) (classes : List ClassDefinition) : List Edit :=
  classes.flatMap fun c => (classEdits t file c).edits

def allEdits (t : Tree) (file : String) (classes : List ClassDefinition) : List Edit :=
  (gatheredEdits t file classes).mergeSort Edit.before

theorem code_substitute (t : Tree) (file : String) (classes : List ClassDefinition) :
    (substitute t file classes).code = String.ofList (applyEdits (allEdits t file classes) t.source) := by
  simp only [substitute, allEdits, gatheredEdits, List.flatMap_map]

theorem mem_allEdits {t : Tree} {file : String} {classes : List ClassDefinition} {e : Edit} :
    e ∈ allEdits t file classes ↔ ∃ c ∈ classes, e ∈ (classEdits t file c).edits := by
  rw [allEdits, List.mem_mergeSort, gatheredEdits, List.mem_flatMap]

theorem InOrder.le_start {lo hi : Nat} {edits : List Edit} (order : InOrder lo edits hi) :
    ∀ e ∈ edits, lo ≤ e.start := by
  induction edits generalizing lo with
  | nil => simp
  | cons first rest ih =>
    obtain ⟨low, width, others⟩ := order
    intro e member
    rcases List.mem_cons.1 member with rfl | member
    · exact low
    · exact Nat.le_trans low (Nat.le_trans width (ih others e member))

theorem InOrder.pairwise {lo hi : Nat} {edits : List Edit} (order : InOrder lo edits hi) :
    edits.Pairwise fun a b => a.start ≤ b.start ∧ (a.start < a.stop → a.start < b.start) := by
  -- An edit that takes up room ends after it starts, so the edits after it start later.
  induction edits generalizing lo with
  | nil => exact .nil
  | cons first rest ih =>
    obtain ⟨low, width, others⟩ := order
    refine List.pairwise_cons.2 ⟨fun e member => ?_, ih others⟩
    have after := others.le_start e member
    exact ⟨Nat.le_trans width after, fun room => Nat.lt_of_lt_of_le room after⟩

theorem Edit.before_trans (a b c : Edit) (left : before a b = true) (right : before b c = true) :
    before a c = true := by
  simp only [before, decide_eq_true_eq] at left right ⊢
  omega

theorem Edit.before_total (a b : Edit) : (before a b || before b a) = true := by
  simp only [before, Bool.or_eq_true, decide_eq_true_eq]
  omega

theorem InOrder.mergeSort_eq {lo hi : Nat} {edits : List Edit} (order : InOrder lo edits hi) :
    edits.mergeSort Edit.before = edits :=
  List.mergeSort_of_pairwise (order.pairwise.imp fun both => decide_eq_true both.1)

theorem inOrder_gatheredEdits {t : Tree} {lo hi : Nat} {classes : List ClassDefinition}
    (placed : Node.placedIn lo hi (classes.map (·.config)) = true) (le : lo ≤ hi) (file : String) :
    InOrder lo (gatheredEdits t file classes) hi := by
  induction classes generalizing lo with
  | nil => exact le
  | cons c rest ih =>
    obtain ⟨first, others⟩ := Node.placedIn_cons.1 placed
    have bounds := Node.placed_iff.1 first
    rw [gatheredEdits, List.flatMap_cons]
    have own : InOrder lo (classEdits t file c).edits c.config.stop :=
      classEdits_inOrder (Node.placed_to_stop first) (Nat.le_trans bounds.1 bounds.2.1)
    exact own.append (ih others bounds.2.2.1)

theorem placedIn_configs {lo hi : Nat} (t : Tree) (systems : List String) (file : String) {statements : List Node}
    (placed : Node.placedIn lo hi statements = true) :
    Node.placedIn lo hi ((statements.filterMap (classOf? t systems file)).map (·.config)) = true := by
  induction statements generalizing lo with
  | nil => rfl
  | cons n rest ih =>
    obtain ⟨first, others⟩ := Node.placedIn_cons.1 placed
    have bounds := Node.placed_iff.1 first
    cases found : classOf? t systems file n with
    | none =>
      rw [List.filterMap_cons_none found]
      exact Node.placedIn_widen (ih others) (Nat.le_trans bounds.1 bounds.2.1) (Nat.le_refl hi)
    | some c =>
      have config := (part_config found).placed (Node.placed_to_stop first)
      rw [List.filterMap_cons_some found, List.map_cons, Node.placedIn_cons]
      exact ⟨Node.placed_widen config (Nat.le_refl lo) bounds.2.2.1,
        Node.placedIn_widen (ih others) (Node.placed_iff.1 config).2.2.1 (Nat.le_refl hi)⟩

theorem allEdits_inOrder {lo hi : Nat} (t : Tree) (systems : List String) (file : String) (statements : List Node)
    (placed : Node.placedIn lo hi statements = true) (le : lo ≤ hi) :
    InOrder lo (allEdits t file (statements.filterMap (classOf? t systems file))) hi := by
  have order : InOrder lo (gatheredEdits t file (statements.filterMap (classOf? t systems file))) hi :=
    inOrder_gatheredEdits (placedIn_configs t systems file placed) le file
  rwa [allEdits, order.mergeSort_eq]

theorem part_config_of_mem {t : Tree} {systems : List String} {file : String} {c : ClassDefinition}
    (defined : c ∈ ClassDefinition.all t systems file) : t.root.Part c.config := by
  rw [all_eq_filterMap] at defined
  obtain ⟨statement, top, isClass⟩ := List.mem_filterMap.mp defined
  exact (Node.Part.whole.child top).trans (part_config isClass)

theorem placed_editAt {t : Tree} {systems : List String} {file : String} {c : ClassDefinition} {s : Site}
    (parent : Parent) (defined : c ∈ ClassDefinition.all t systems file) (found : s ∈ sitesOf t c) :
    (editAt t parent c s).Placed t.source := by
  have part : t.root.Part s.node := (part_config_of_mem defined).trans ((sitesIn_config t c).parts s found)
  have bounded := part.all t.bounded
  revert bounded
  cases node : s.node with
  | mk k start stop children =>
    intro bounded
    simp only [Node.all, Bool.and_eq_true] at bounded
    simpa only [Edit.Placed, editAt, Site.start, Site.stop, node] using bounded.1

mutual

def blockSizes : Node → List Nat
  | .mk k _ _ cs => (if k = .statementBlock then [cs.length] else []) ++ blockSizesOf cs

def blockSizesOf : List Node → List Nat
  | [] => []
  | n :: rest => blockSizes n ++ blockSizesOf rest

end

def treeAfter? (t : Tree) (systems : List String) (file : String) : Option Tree :=
  Tree.ofSource? (substitute t file (ClassDefinition.all t systems file)).code.toList

set_option maxRecDepth 100000 in
/-- A replacement opens with a parenthesis, so a line before it that had no semicolon goes on into it: a body of
two statements becomes one. -/
theorem site_joins_line_before :
    ((Tree.ofSource? "Ext.define('A',\x7bextend:'B',m()\x7bf\nthis.callParent()\x7d\x7d);".toList).map fun t =>
      (blockSizes t.root, (treeAfter? t ["Ext"] "a.js").map (blockSizes ·.root))) = some ([2], some [1]) := by
  decide +kernel

end ClassLinker.ParentCall
