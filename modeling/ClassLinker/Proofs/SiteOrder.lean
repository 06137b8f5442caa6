import ClassLinker.Proofs.Shape.Statements
import Mathlib.Data.List.Pairwise
import Mathlib.Data.List.Perm.Basic

set_option autoImplicit false

/-!
The call sites of a class in source order. A site holds the sites in its receiver and in what it passes on, and no
others, so the order of the tree is the order in which the sites are sorted.
-/

namespace ClassLinker.Text

theorem takeBytes_zero (cs : List Char) : takeBytes 0 cs = [] := by
  cases cs with
  | nil => rfl
  | cons c rest => simp [takeBytes, Nat.not_le.mpr c.utf8Size_pos]

theorem isBoundary_zero (source : List Char) : isBoundary source 0 = true := by
  rw [isBoundary, takeBytes_zero]
  rfl

theorem slice_self (source : List Char) (n : Nat) : slice source n n = [] := by
  rw [slice, Nat.sub_self, takeBytes_zero]

end ClassLinker.Text

namespace ClassLinker.Script.Node

theorem placedIn_append {lo mid hi : Nat} {xs ys : List Node} (left : placedIn lo mid xs = true)
    (right : placedIn mid hi ys = true) (le : mid ≤ hi) (le' : lo ≤ mid) : placedIn lo hi (xs ++ ys) = true := by
  induction xs generalizing lo with
  | nil => exact placedIn_widen right le' (Nat.le_refl hi)
  | cons n rest ih =>
    obtain ⟨first, others⟩ := placedIn_cons.1 left
    have ends := (placed_iff.1 first).2.2.1
    exact placedIn_cons.2 ⟨placed_widen first (Nat.le_refl lo) le, ih others ends⟩

theorem placedIn_sublist {lo hi : Nat} {xs ys : List Node} (placed : placedIn lo hi ys = true)
    (part : xs.Sublist ys) : placedIn lo hi xs = true := by
  induction part generalizing lo with
  | slnil => rfl
  | cons n _ ih =>
    obtain ⟨first, others⟩ := placedIn_cons.1 placed
    have bounds := placed_iff.1 first
    exact ih (placedIn_widen others (by omega) (Nat.le_refl hi))
  | cons_cons n _ ih =>
    obtain ⟨first, others⟩ := placedIn_cons.1 placed
    exact placedIn_cons.2 ⟨first, ih others⟩

theorem placedIn_singleton {lo hi : Nat} {n : Node} (placed : n.placed lo hi = true) :
    placedIn lo hi [n] = true :=
  placedIn_cons.2 ⟨placed, rfl⟩

end ClassLinker.Script.Node

namespace ClassLinker.ParentCall

open Script (Node Tree)
open Text (isBoundary slice)

/-- What the tree of a source says of a node and of all below it. -/
structure Fits (t : Tree) (n : Node) : Prop where
  placed : n.placed n.start n.stop = true
  bounded : n.all (fun n => isBoundary t.source n.start && isBoundary t.source n.stop) = true
  shaped : n.Shaped

namespace Fits

variable {t : Tree} {n c : Node}

theorem width (fits : Fits t n) : n.start ≤ n.stop := (Node.placed_iff.1 fits.placed).2.1

theorem placedIn_children (fits : Fits t n) : Node.placedIn n.start n.stop n.children = true :=
  (Node.placed_iff.1 fits.placed).2.2.2

theorem boundary (fits : Fits t n) : isBoundary t.source n.start = true ∧ isBoundary t.source n.stop = true := by
  have bounded := fits.bounded
  cases n
  simp only [Node.all, Bool.and_eq_true] at bounded
  exact bounded.1

theorem child (fits : Fits t n) (member : c ∈ n.children) : Fits t c where
  placed := by
    have bounds := Node.placed_iff.1 (Node.placed_of_mem fits.placedIn_children member)
    exact Node.placed_iff.2 ⟨Nat.le_refl _, bounds.2.1, Nat.le_refl _, bounds.2.2.2⟩
  bounded := (Node.Part.whole.child member).all fits.bounded
  shaped := fits.shaped.child member

theorem of_part (fits : Fits t n) (part : n.Part c) : Fits t c := by
  induction part with
  | whole => exact fits
  | child _ member ih => exact ih.child member

end Fits

theorem Site.ofNode?_eq_some {t : Tree} {m : Method} {n : Node} {s : Site} (found : ofNode? t m n = some s) :
    ∃ start stop start' stop' receiver property arguments,
      n = .mk .callExpression start stop [.mk .memberExpression start' stop' [receiver, property], arguments] ∧
      t.text property = "callParent" ∧
      s = ⟨n, receiver, Passed.ofArguments t arguments.children, m.name, m.side⟩ := by
  unfold ofNode? at found
  split at found
  next start stop start' stop' receiver property arguments =>
    split at found
    next named =>
      exact ⟨start, stop, start', stop', receiver, property, arguments, rfl, named, (Option.some.inj found).symm⟩
    next => cases found
  next => cases found

theorem Passed.nodes_ofArguments (t : Tree) (arguments : List Node) :
    (ofArguments t arguments).nodes = arguments ∨
      ∃ only, arguments = [only] ∧ only.kind = .array ∧ (ofArguments t arguments).nodes = only.children := by
  unfold ofArguments
  split
  next => exact .inl rfl
  next only =>
    split
    next => exact .inl rfl
    split
    next => exact .inl rfl
    split
    next array => exact .inr ⟨only, rfl, array, rfl⟩
    next => exact .inl rfl
  next => exact .inl rfl

theorem Passed.nodes_of_others (t : Tree) {arguments : List Node}
    (others : ∀ s e items, arguments ≠ [.mk .array s e items]) : (ofArguments t arguments).nodes = arguments := by
  rcases nodes_ofArguments t arguments with same | ⟨⟨k, s, e, items⟩, alone, array, -⟩
  · exact same
  · obtain rfl : k = .array := array
    exact absurd alone (others s e items)

/-- The nodes whose texts make up the text of a node: for a call site its receiver and what it passes on. -/
def inner (t : Tree) (m : Method) (n : Node) : List Node :=
  (Site.ofNode? t m n).elim n.children fun s => s.receiver :: s.passed.nodes

theorem inner_of_none {t : Tree} {m : Method} {n : Node} (none : Site.ofNode? t m n = none) :
    inner t m n = n.children := by
  rw [inner, none, Option.elim_none]

theorem inner_of_some {t : Tree} {m : Method} {n : Node} {s : Site} (found : Site.ofNode? t m n = some s) :
    inner t m n = s.receiver :: s.passed.nodes := by
  rw [inner, found, Option.elim_some]

theorem start_lt_stop_of_text {t : Tree} {n : Node} (named : t.text n = "callParent") : n.start < n.stop := by
  by_contra narrow
  have empty : n.stop - n.start = 0 := by omega
  rw [Tree.text, slice, empty, Text.takeBytes_zero] at named
  exact absurd named (by decide)

namespace Site

mutual

def inOrder (t : Tree) (m : Method) : Node → List Site
  | .mk k s e cs => (ofNode? t m (.mk k s e cs)).toList ++ inOrderAll t m cs

def inOrderAll (t : Tree) (m : Method) : List Node → List Site
  | [] => []
  | n :: rest => inOrder t m n ++ inOrderAll t m rest

end

theorem inOrder_eq (t : Tree) (m : Method) (n : Node) :
    inOrder t m n = (ofNode? t m n).toList ++ inOrderAll t m n.children := by
  cases n
  rw [inOrder, Node.children]

theorem inOrder_of_kind {t : Tree} {m : Method} {n : Node} (kind : n.kind ≠ .callExpression) :
    inOrder t m n = inOrderAll t m n.children := by
  have none : ofNode? t m n = none := by
    rw [Option.eq_none_iff_forall_ne_some]
    intro s found
    obtain ⟨_, _, _, _, _, _, _, rfl, -⟩ := ofNode?_eq_some found
    exact kind rfl
  rw [inOrder_eq, none, Option.toList_none, List.nil_append]

theorem inOrder_of_leaf {t : Tree} {m : Method} {n : Node} (leaf : n.children = []) : inOrder t m n = [] := by
  obtain ⟨k, s, e, cs⟩ := n
  obtain rfl : cs = [] := leaf
  have none : ofNode? t m (.mk k s e []) = none := by cases k <;> rfl
  rw [inOrder, none]
  rfl

theorem mem_inOrderAll {t : Tree} {m : Method} {cs : List Node} {s : Site} :
    s ∈ inOrderAll t m cs ↔ ∃ c ∈ cs, s ∈ inOrder t m c := by
  induction cs with
  | nil => simp [inOrderAll]
  | cons n rest ih => simp [inOrderAll, ih]

mutual

theorem of_mem_inOrder {t : Tree} {m : Method} {s : Site} : (n : Node) → s ∈ inOrder t m n →
    n.Part s.node ∧ ofNode? t m s.node = some s
  | .mk k start stop cs, member => by
    rw [inOrder] at member
    rcases List.mem_append.1 member with member | member
    · have found := Option.mem_toList.1 member
      rw [ofNode?_node found]
      exact ⟨.whole, found⟩
    · obtain ⟨c, child, part, found⟩ := of_mem_inOrderAll cs member
      exact ⟨(Node.Part.whole.child child).trans part, found⟩

theorem of_mem_inOrderAll {t : Tree} {m : Method} {s : Site} : (cs : List Node) → s ∈ inOrderAll t m cs →
    ∃ c ∈ cs, c.Part s.node ∧ ofNode? t m s.node = some s
  | [], member => by simp [inOrderAll] at member
  | n :: rest, member => by
    rw [inOrderAll] at member
    rcases List.mem_append.1 member with member | member
    · exact ⟨n, List.mem_cons_self, of_mem_inOrder n member⟩
    · obtain ⟨c, child, found⟩ := of_mem_inOrderAll rest member
      exact ⟨c, List.mem_cons_of_mem n child, found⟩

end

theorem mem_inOrder_of_part {t : Tree} {m : Method} {n c : Node} {s : Site} (part : n.Part c)
    (member : s ∈ inOrder t m c) : s ∈ inOrder t m n := by
  induction part with
  | whole => exact member
  | child _ child ih =>
    refine ih ?_
    rw [inOrder_eq]
    exact List.mem_append_right _ (mem_inOrderAll.2 ⟨_, child, member⟩)

theorem mem_inOrder {t : Tree} {m : Method} {n : Node} {s : Site} :
    s ∈ inOrder t m n ↔ n.Part s.node ∧ ofNode? t m s.node = some s := by
  refine ⟨of_mem_inOrder n, fun ⟨part, found⟩ => mem_inOrder_of_part part ?_⟩
  rw [inOrder_eq, found]
  exact List.mem_cons_self

end Site

structure PassedIn (t : Tree) (m : Method) (arguments : Node) (nodes : List Node) : Prop where
  parts : ∀ c ∈ nodes, arguments.Part c
  placed : Node.placedIn arguments.start arguments.stop nodes = true
  sites : Site.inOrder t m arguments = Site.inOrderAll t m nodes

theorem passedIn {t : Tree} {arguments : Node} (m : Method) (fits : Fits t arguments)
    (kind : arguments.kind ≠ .callExpression) :
    PassedIn t m arguments (Passed.ofArguments t arguments.children).nodes := by
  rcases Passed.nodes_ofArguments t arguments.children with same | ⟨only, alone, array, items⟩
  · rw [same]
    exact ⟨fun c member => .child .whole member, fits.placedIn_children, Site.inOrder_of_kind kind⟩
  · -- an array that is the only argument holds no site but those in its items
    rw [items]
    have child : only ∈ arguments.children := by rw [alone]; exact List.mem_cons_self
    have bounds := Node.placed_iff.1 (Node.placed_of_mem fits.placedIn_children child)
    refine ⟨fun c member => (Node.Part.whole.child child).child member, ?_, ?_⟩
    · exact Node.placedIn_widen bounds.2.2.2 bounds.1 bounds.2.2.1
    · rw [Site.inOrder_of_kind kind, alone, Site.inOrderAll, Site.inOrderAll, List.append_nil]
      exact Site.inOrder_of_kind (by rw [array]; decide)

/-- A call site and its parts: between the receiver and what is passed on there is room for a name, and no other
node below the site holds a site. -/
structure Anatomy (t : Tree) (m : Method) (n : Node) (s : Site) : Prop where
  node : s.node = n
  below : ∀ c ∈ s.receiver :: s.passed.nodes, ∃ child ∈ n.children, child.Part c
  apart : ∃ first last, first < last ∧ last ≤ n.stop ∧
    s.receiver.placed n.start first = true ∧ Node.placedIn last n.stop s.passed.nodes = true
  sites : Site.inOrderAll t m n.children =
    Site.inOrder t m s.receiver ++ Site.inOrderAll t m s.passed.nodes

theorem anatomy {t : Tree} {m : Method} {n : Node} {s : Site} (fits : Fits t n)
    (found : Site.ofNode? t m n = some s) : Anatomy t m n s := by
  obtain ⟨start, stop, start', stop', receiver, property, arguments, rfl, named, rfl⟩ := Site.ofNode?_eq_some found
  have callee := fits.child (c := .mk .memberExpression start' stop' [receiver, property]) (by simp [Node.children])
  have list := fits.child (c := arguments) (by simp [Node.children])
  -- the name is a leaf, and the arguments are no call
  have leaf : property.children = [] := by
    have shape := (Node.shaped_iff.1 callee.shaped).1
    simpa [Node.shaped, Node.kind, Node.children] using shape
  have kind : arguments.kind ≠ .callExpression := by
    have shape := (Node.shaped_iff.1 fits.shaped).1
    change (decide (arguments.kind = .arguments) || decide (arguments.kind = .templateString)) = true at shape
    rcases Bool.or_eq_true_iff.1 shape with shape | shape <;> simp [of_decide_eq_true shape]
  have passed := passedIn m list kind
  -- the receiver, the name and the arguments stand in this order, the first two inside the access
  have outer := fits.placedIn_children
  simp only [Node.children, Node.placedIn_cons] at outer
  have within := callee.placedIn_children
  simp only [Node.children, Node.placedIn_cons] at within
  have name := Node.placed_iff.1 within.2.1
  have access := Node.placed_iff.1 outer.1
  have rest := Node.placed_iff.1 outer.2.1
  refine ⟨rfl, ?_, ⟨property.start, property.stop, start_lt_stop_of_text named, ?_, ?_, ?_⟩, ?_⟩
  · intro c member
    rcases List.mem_cons.1 member with rfl | member
    · exact ⟨_, List.mem_cons_self, .child .whole List.mem_cons_self⟩
    · exact ⟨arguments, by simp [Node.children], passed.parts c member⟩
  · exact Nat.le_trans name.2.2.1 (Nat.le_trans rest.1 (Nat.le_trans rest.2.1 rest.2.2.1))
  · have receiver := Node.placed_iff.1 within.1
    exact Node.placed_iff.2 ⟨Nat.le_trans access.1 receiver.1, receiver.2.1, name.1, receiver.2.2.2⟩
  · exact Node.placedIn_widen passed.placed (Nat.le_trans name.2.2.1 rest.1) rest.2.2.1
  · have accessed : Site.inOrder t m (.mk .memberExpression start' stop' [receiver, property]) =
        Site.inOrder t m receiver := by
      rw [Site.inOrder_of_kind (by simp [Node.kind])]
      simp [Node.children, Site.inOrderAll, Site.inOrder_of_leaf leaf]
    simp [Node.children, Site.inOrderAll, accessed, passed.sites]

namespace Anatomy

variable {t : Tree} {m : Method} {n c : Node} {s : Site}

theorem room (shape : Anatomy t m n s) : n.start < n.stop := by
  obtain ⟨first, last, room, high, receiver, -⟩ := shape.apart
  have bounds := Node.placed_iff.1 receiver
  omega

theorem narrower (shape : Anatomy t m n s) (member : c ∈ s.receiver :: s.passed.nodes) :
    n.start < c.start ∨ c.stop < n.stop := by
  obtain ⟨first, last, room, high, receiver, passed⟩ := shape.apart
  have bounds := Node.placed_iff.1 receiver
  rcases List.mem_cons.1 member with rfl | member
  · omega
  · have follows := Node.placed_iff.1 (Node.placed_of_mem passed member)
    omega

end Anatomy

theorem sizeOf_child {n c : Node} (member : c ∈ n.children) : sizeOf c < sizeOf n := by
  cases n
  have smaller := List.sizeOf_lt_of_mem member
  simp only [Node.children, Node.mk.sizeOf_spec] at smaller ⊢
  omega

theorem sizeOf_part {n c : Node} (part : n.Part c) : sizeOf c ≤ sizeOf n := by
  induction part with
  | whole => exact Nat.le_refl _
  | child _ member ih => exact Nat.le_trans (Nat.le_of_lt (sizeOf_child member)) ih

section
variable {t : Tree} {m : Method} {n c : Node}

theorem inner_below (fits : Fits t n) (member : c ∈ inner t m n) : ∃ child ∈ n.children, child.Part c := by
  cases found : Site.ofNode? t m n with
  | none => exact ⟨c, inner_of_none found ▸ member, .whole⟩
  | some s => exact (anatomy fits found).below c (inner_of_some found ▸ member)

theorem inner_fits (fits : Fits t n) (member : c ∈ inner t m n) : Fits t c := by
  obtain ⟨child, among, part⟩ := inner_below fits member
  exact (fits.child among).of_part part

theorem inner_placed (fits : Fits t n) : Node.placedIn n.start n.stop (inner t m n) = true := by
  cases found : Site.ofNode? t m n with
  | none => exact inner_of_none found ▸ fits.placedIn_children
  | some s =>
    obtain ⟨first, last, room, high, receiver, passed⟩ := (anatomy fits found).apart
    have bounds := Node.placed_iff.1 receiver
    rw [inner_of_some found, Node.placedIn_cons]
    exact ⟨Node.placed_widen receiver (Nat.le_refl _) (by omega),
      Node.placedIn_widen passed (by omega) (Nat.le_refl _)⟩

theorem inOrder_inner (fits : Fits t n) :
    Site.inOrder t m n = (Site.ofNode? t m n).toList ++ Site.inOrderAll t m (inner t m n) := by
  rw [Site.inOrder_eq]
  cases found : Site.ofNode? t m n with
  | none => rw [inner_of_none found]
  | some s => rw [inner_of_some found, (anatomy fits found).sites, Site.inOrderAll]

theorem inner_induction (m : Method) {motive : Node → Prop}
    (step : ∀ n, Fits t n → (∀ c ∈ inner t m n, motive c) → motive n) {n : Node} (fits : Fits t n) : motive n := by
  refine step n fits fun c member => ?_
  -- these need not be children: a receiver is two levels below its site, and the items of an array are three
  have smaller : sizeOf c < sizeOf n := by
    obtain ⟨child, among, part⟩ := inner_below fits member
    exact Nat.lt_of_le_of_lt (sizeOf_part part) (sizeOf_child among)
  exact inner_induction m step (inner_fits fits member)
termination_by sizeOf n

end

namespace Site

def Precedes (a b : Site) : Prop := a.start < b.start ∨ a.start = b.start ∧ b.stop < a.stop

structure Ordered (lo hi : Nat) (sites : List Site) : Prop where
  inside : ∀ s ∈ sites, lo ≤ s.start ∧ s.start < s.stop ∧ s.stop ≤ hi
  precede : sites.Pairwise Precedes

theorem Ordered.nil {lo hi : Nat} : Ordered lo hi [] := ⟨by simp, .nil⟩

theorem Ordered.widen {lo lo' hi hi' : Nat} {sites : List Site} (order : Ordered lo hi sites) (low : lo' ≤ lo)
    (high : hi ≤ hi') : Ordered lo' hi' sites := by
  refine ⟨fun s member => ?_, order.precede⟩
  have inside := order.inside s member
  omega

theorem Ordered.append {lo mid hi : Nat} {xs ys : List Site} (left : Ordered lo mid xs) (right : Ordered mid hi ys)
    (low : lo ≤ mid) (high : mid ≤ hi) : Ordered lo hi (xs ++ ys) := by
  refine ⟨fun s member => ?_, List.pairwise_append.2 ⟨left.precede, right.precede, fun a first b second => ?_⟩⟩
  · rcases List.mem_append.1 member with member | member
    · exact (left.widen (Nat.le_refl lo) high).inside s member
    · exact (right.widen low (Nat.le_refl hi)).inside s member
  · have before := left.inside a first
    have after := right.inside b second
    exact .inl (by omega)

theorem ordered_inOrderAll {t : Tree} {m : Method} {lo hi : Nat} {cs : List Node}
    (placed : Node.placedIn lo hi cs = true) (le : lo ≤ hi)
    (each : ∀ c ∈ cs, Ordered c.start c.stop (inOrder t m c)) : Ordered lo hi (inOrderAll t m cs) := by
  induction cs generalizing lo with
  | nil => exact .nil
  | cons n rest ih =>
    obtain ⟨first, others⟩ := Node.placedIn_cons.1 placed
    have bounds := Node.placed_iff.1 first
    have here := (each n List.mem_cons_self).widen bounds.1 (Nat.le_refl _)
    have later := ih others bounds.2.2.1 fun c member => each c (List.mem_cons_of_mem n member)
    exact here.append later (by omega) bounds.2.2.1

theorem ordered_inOrder {t : Tree} (m : Method) {n : Node} (fits : Fits t n) :
    Ordered n.start n.stop (inOrder t m n) := by
  refine inner_induction m (motive := fun n => Ordered n.start n.stop (inOrder t m n)) (fun n fits each => ?_) fits
  have order := ordered_inOrderAll (inner_placed fits) fits.width each
  rw [inOrder_inner fits]
  cases found : ofNode? t m n with
  | none => exact order
  | some s =>
    have shape := anatomy fits found
    have room := shape.room
    have starts : s.start = n.start := by rw [start, shape.node]
    have stops : s.stop = n.stop := by rw [stop, shape.node]
    refine ⟨fun x member => ?_, List.pairwise_cons.2 ⟨fun x member => ?_, order.precede⟩⟩
    · rcases List.mem_cons.1 member with rfl | member
      · omega
      · exact order.inside x member
    · -- a site inside this one may start or end where it does, but not both
      obtain ⟨c, part, among⟩ := mem_inOrderAll.1 member
      have inside := (each c part).inside x among
      have bounds := Node.placed_iff.1 (Node.placed_of_mem (inner_placed fits) part)
      have narrower := shape.narrower (inner_of_some found ▸ part)
      unfold Precedes
      omega

theorem ordered_of_fits {t : Tree} (m : Method) {lo hi : Nat} {cs : List Node} (fits : ∀ c ∈ cs, Fits t c)
    (placed : Node.placedIn lo hi cs = true) (le : lo ≤ hi) : Ordered lo hi (inOrderAll t m cs) :=
  ordered_inOrderAll placed le fun c member => ordered_inOrder m (fits c member)

theorem Ordered.eq_of_before {lo hi : Nat} {sites : List Site} (order : Ordered lo hi sites) {a b : Site}
    (left : a ∈ sites) (right : b ∈ sites) (ab : before a b = true) (ba : before b a = true) : a = b := by
  by_contra differ
  -- two different members come one before the other, in whichever order they are given
  let Apart (a b : Site) : Prop := Precedes a b ∨ Precedes b a
  have : Std.Symm Apart := ⟨fun _ _ => Or.symm⟩
  have apart : sites.Pairwise Apart := order.precede.imp Or.inl
  have either : Precedes a b ∨ Precedes b a := apart.forall left right differ
  simp only [before, Bool.or_eq_true, Bool.and_eq_true, decide_eq_true_eq] at ab ba
  unfold Precedes at either
  omega

theorem Ordered.nodup {lo hi : Nat} {sites : List Site} (order : Ordered lo hi sites) :
    (sites.map (·.node)).Nodup := by
  rw [List.Nodup, List.pairwise_map]
  refine order.precede.imp fun {a b} precedes same => ?_
  unfold Precedes start stop at precedes
  rw [same] at precedes
  omega

theorem Ordered.mergeSort_eq {lo hi : Nat} {sites found : List Site} (order : Ordered lo hi sites)
    (same : found.Perm sites) : found.mergeSort before = sites := by
  have sorted : (found.mergeSort before).Pairwise fun a b => before a b = true :=
    List.pairwise_mergeSort before_trans before_total found
  have sorted' : sites.Pairwise fun a b => before a b = true := by
    refine order.precede.imp fun {a b} precedes => ?_
    unfold Precedes at precedes
    simp only [before, Bool.or_eq_true, Bool.and_eq_true, decide_eq_true_eq]
    omega
  -- both lists are sorted, and a sorted list is fixed by its members as no two of them have the same span
  have perm : (found.mergeSort before).Perm sites := (List.mergeSort_perm found before).trans same
  exact perm.eq_of_pairwise (fun a b left right => order.eq_of_before (perm.mem_iff.1 left) right) sorted sorted'

theorem eraseRepsBy_loop_eq {α : Type} {r : α → α → Bool} {last : α} {rest : List α} (done : List α)
    (apart : (last :: rest).Pairwise fun a b => r a b = false) :
    List.eraseRepsBy.loop r last rest done = done.reverse ++ last :: rest := by
  induction rest generalizing last done with
  | nil => simp [List.eraseRepsBy.loop]
  | cons next rest ih =>
    obtain ⟨first, others⟩ := List.pairwise_cons.1 apart
    rw [List.eraseRepsBy.loop, first next List.mem_cons_self, ih (last :: done) others]
    simp

theorem span_of_same {n n' : Node} (same : n.same n' = true) : n.start = n'.start ∧ n.stop = n'.stop := by
  cases n
  cases n'
  simp only [Node.same, Bool.and_eq_true, decide_eq_true_eq] at same
  exact ⟨same.1.1.2, same.1.2⟩

theorem Ordered.arrange_eq {lo hi : Nat} {sites found : List Site} (order : Ordered lo hi sites)
    (same : found.Perm sites) : arrange found = sites := by
  rw [arrange, order.mergeSort_eq same]
  have apart : sites.Pairwise fun a b => a.node.same b.node = false := by
    refine order.precede.imp fun {a b} precedes => ?_
    rw [← Bool.not_eq_true]
    intro same
    have span := span_of_same same
    unfold Precedes start stop at precedes
    omega
  cases sites with
  | nil => rfl
  | cons s rest => exact eraseRepsBy_loop_eq [] apart

mutual

theorem below_perm (t : Tree) (m : Method) : (n : Node) → (below t m n).Perm (inOrder t m n)
  | .mk k s e cs => by
    rw [below, inOrder]
    exact (belowAll_perm t m cs).append_left _

theorem belowAll_perm (t : Tree) (m : Method) : (cs : List Node) → (belowAll t m cs).Perm (inOrderAll t m cs)
  | [] => by
    rw [belowAll, inOrderAll]
  | n :: rest => by
    rw [belowAll, inOrderAll]
    exact List.perm_append_comm.trans ((below_perm t m n).append (belowAll_perm t m rest))

end

end Site

theorem methodsOf_cases (t : Tree) (side : Side) (n : Node) :
    methodsOf t side n = [] ∨ (∃ name body, methodsOf t side n = [⟨name, side, body⟩] ∧ n.Part body) ∨
      ∃ side' value, methodsOf t side n = methodsIn t side' value.children ∧ value ∈ n.children := by
  unfold methodsOf
  split
  next s e key kind s' e' members =>
    have child : Node.mk kind s' e' members ∈ (Node.mk .pair s e [key, .mk kind s' e' members]).children := by
      simp [Node.children]
    split
    next => exact .inl rfl
    next name _ =>
      split
      next => exact .inr (.inl ⟨name, _, rfl, .child .whole child⟩)
      split
      next =>
        split
        next => exact .inr (.inr ⟨side, _, rfl, child⟩)
        split
        next => exact .inr (.inr ⟨.static, _, rfl, child⟩)
        next => exact .inl rfl
      next => exact .inl rfl
  next =>
    split
    next name _ => exact .inr (.inl ⟨name, _, rfl, .whole⟩)
    next => exact .inl rfl
  next => exact .inl rfl

structure BodiesIn (n : Node) (methods : List Method) : Prop where
  parts : ∀ m ∈ methods, n.Part m.body
  placed : ∀ {lo hi : Nat}, n.placed lo hi = true → Node.placedIn lo hi (methods.map (·.body)) = true

structure BodiesAmong (cs : List Node) (methods : List Method) : Prop where
  parts : ∀ m ∈ methods, ∃ n ∈ cs, n.Part m.body
  placed : ∀ {lo hi : Nat}, Node.placedIn lo hi cs = true → lo ≤ hi →
    Node.placedIn lo hi (methods.map (·.body)) = true

theorem BodiesAmong.below {n : Node} {methods : List Method} (found : BodiesAmong n.children methods) :
    BodiesIn n methods where
  parts := by
    intro m member
    obtain ⟨c, among, part⟩ := found.parts m member
    exact (Node.Part.whole.child among).trans part
  placed := by
    intro lo hi placed
    have bounds := Node.placed_iff.1 placed
    exact Node.placedIn_widen (found.placed bounds.2.2.2 bounds.2.1) bounds.1 bounds.2.2.1

theorem BodiesIn.of_part {n c : Node} {methods : List Method} (found : BodiesIn c methods) (part : n.Part c) :
    BodiesIn n methods :=
  ⟨fun m member => part.trans (found.parts m member), fun placed => found.placed (part.placed placed)⟩

theorem bodiesAmong_methodsIn {t : Tree} {side : Side} {cs : List Node}
    (each : ∀ c ∈ cs, BodiesIn c (methodsOf t side c)) : BodiesAmong cs (methodsIn t side cs) := by
  induction cs with
  | nil => exact ⟨by simp [methodsIn], fun _ _ => by simp [methodsIn, Node.placedIn]⟩
  | cons n rest ih =>
    have first := each n List.mem_cons_self
    have others := ih fun c member => each c (List.mem_cons_of_mem n member)
    rw [methodsIn]
    constructor
    · intro m member
      rcases List.mem_append.1 member with member | member
      · exact ⟨n, List.mem_cons_self, first.parts m member⟩
      · obtain ⟨c, among, part⟩ := others.parts m member
        exact ⟨c, List.mem_cons_of_mem n among, part⟩
    · intro lo hi placed le
      obtain ⟨here, later⟩ := Node.placedIn_cons.1 placed
      have bounds := Node.placed_iff.1 here
      rw [List.map_append]
      exact Node.placedIn_append (first.placed (Node.placed_to_stop here)) (others.placed later bounds.2.2.1)
        bounds.2.2.1 (Nat.le_trans bounds.1 bounds.2.1)

theorem bodiesIn_methodsOf (t : Tree) (side : Side) (n : Node) : BodiesIn n (methodsOf t side n) := by
  rcases methodsOf_cases t side n with nothing | ⟨name, body, alone, part⟩ | ⟨side', value, block, child⟩
  · rw [nothing]
    exact ⟨by simp, fun _ => rfl⟩
  · rw [alone]
    exact ⟨by simpa using part, fun placed => Node.placedIn_singleton (part.placed placed)⟩
  · rw [block]
    have inside : BodiesIn value (methodsIn t side' value.children) :=
      (bodiesAmong_methodsIn fun c member => by
        -- the members of a block are below the value of its pair
        have smaller := Nat.lt_trans (sizeOf_child member) (sizeOf_child child)
        exact bodiesIn_methodsOf t side' c).below
    exact inside.of_part (.child .whole child)
termination_by sizeOf n

theorem bodiesIn_config (t : Tree) (c : ClassDefinition) :
    BodiesIn c.config (methodsIn t .prototype c.config.children) :=
  (bodiesAmong_methodsIn fun member _ => bodiesIn_methodsOf t .prototype member).below

theorem ordered_methods {t : Tree} {lo hi : Nat} {methods : List Method} (fits : ∀ m ∈ methods, Fits t m.body)
    (placed : Node.placedIn lo hi (methods.map (·.body)) = true) (le : lo ≤ hi) :
    Site.Ordered lo hi (methods.flatMap fun m => Site.inOrder t m m.body) := by
  induction methods generalizing lo with
  | nil => exact .nil
  | cons m rest ih =>
    obtain ⟨first, others⟩ := Node.placedIn_cons.1 placed
    have bounds := Node.placed_iff.1 first
    have here := (Site.ordered_inOrder m (fits m List.mem_cons_self)).widen bounds.1 (Nat.le_refl _)
    have later := ih (fun x member => fits x (List.mem_cons_of_mem m member)) others bounds.2.2.1
    rw [List.flatMap_cons]
    exact here.append later (Nat.le_trans bounds.1 bounds.2.1) bounds.2.2.1

theorem sortedSites_eq {t : Tree} {c : ClassDefinition} (fits : Fits t c.config) :
    sortedSites t c = (methodsIn t .prototype c.config.children).flatMap fun m => Site.inOrder t m m.body := by
  have bodies := bodiesIn_config t c
  have order := ordered_methods (fun m member => fits.of_part (bodies.parts m member)) (bodies.placed fits.placed)
    fits.width
  exact order.arrange_eq (List.Perm.flatMap_left _ fun m _ => Site.below_perm t m m.body)

end ClassLinker.ParentCall
