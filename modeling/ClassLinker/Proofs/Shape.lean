import ClassLinker.Script.Tree
import ClassLinker.Proofs.Substitution

set_option autoImplicit false

/-!
What the accesses and calls of a parsed source are made of. The name after a dot has no parts of its own, and what
a call passes is a list of arguments or a template. Every rule of the grammar keeps this, whatever the rules it is
given read below it.
-/

namespace ClassLinker.Script

def Kind.isPlain (k : Kind) : Bool := k ≠ .memberExpression && k ≠ .callExpression

namespace Node

/-- A node that, as an access, ends in a name without parts and, as a call, in arguments or a template. -/
def shaped (n : Node) : Bool :=
  match n.kind with
  | .memberExpression => n.children.getLast?.all (·.children.isEmpty)
  | .callExpression => n.children.getLast?.all fun last => last.kind = .arguments || last.kind = .templateString
  | _ => true

def Shaped (n : Node) : Prop := n.all shaped = true

theorem allOf_iff {p : Node → Bool} {cs : List Node} : allOf p cs = true ↔ ∀ n ∈ cs, n.all p = true := by
  refine ⟨fun holds n member => all_of_mem holds member, fun each => ?_⟩
  induction cs with
  | nil => rfl
  | cons first rest ih =>
    rw [allOf, Bool.and_eq_true]
    exact ⟨each first List.mem_cons_self, ih fun n member => each n (List.mem_cons_of_mem first member)⟩

theorem shaped_iff {k : Kind} {s e : Nat} {cs : List Node} :
    Shaped (.mk k s e cs) ↔ shaped (.mk k s e cs) = true ∧ ∀ n ∈ cs, n.Shaped := by
  rw [Shaped, all, Bool.and_eq_true, allOf_iff]
  rfl

theorem Shaped.child {n c : Node} (good : n.Shaped) (member : c ∈ n.children) : c.Shaped := by
  cases n
  exact (shaped_iff.1 good).2 c member

theorem shaped_plain {k : Kind} {s e : Nat} {cs : List Node} (plain : k.isPlain = true)
    (parts : ∀ n ∈ cs, n.Shaped) : Shaped (.mk k s e cs) := by
  refine shaped_iff.2 ⟨?_, parts⟩
  cases k <;> first | rfl | exact absurd plain (by decide)

theorem shaped_leaf (k : Kind) (s e : Nat) : Shaped (.mk k s e []) := by
  refine shaped_iff.2 ⟨?_, by simp⟩
  cases k <;> rfl

theorem shaped_access {s e : Nat} {base name : Node} (good : base.Shaped) (leaf : name.children = []) :
    Shaped (.mk .memberExpression s e [base, name]) := by
  obtain ⟨k, s', e', cs⟩ := name
  obtain rfl : cs = [] := leaf
  refine shaped_iff.2 ⟨rfl, ?_⟩
  simpa using ⟨good, shaped_leaf k s' e'⟩

theorem shaped_call {s e : Nat} {callee passed : Node} (good : callee.Shaped) (good' : passed.Shaped)
    (kind : passed.kind = .arguments ∨ passed.kind = .templateString) :
    Shaped (.mk .callExpression s e [callee, passed]) := by
  refine shaped_iff.2 ⟨?_, by simpa using ⟨good, good'⟩⟩
  change (decide (passed.kind = .arguments) || decide (passed.kind = .templateString)) = true
  simpa using kind

theorem Shaped.withKind {n : Node} {k : Kind} (good : n.Shaped) (plain : k.isPlain = true) :
    (n.withKind k).Shaped := by
  cases n
  exact shaped_plain plain (shaped_iff.1 good).2

mutual

theorem Shaped.pattern (place : Place) : (n : Node) → n.Shaped → ∀ p, pattern? place n = some p → p.Shaped
  | .mk kind s e cs, good, p, read => by
    have parts := (shaped_iff.1 good).2
    cases kind
    -- a pair keeps its key, and only the value is read again
    case pair =>
      match cs with
      | [] | [_] | _ :: _ :: _ :: _ => cases read
      | [key, value] =>
        simp only [pattern?, Option.ite_none_right_eq_some, Option.map_eq_some_iff] at read
        obtain ⟨-, inner, again, rfl⟩ := read
        have value := Shaped.pattern .binding value (parts value (by simp)) inner again
        exact shaped_plain rfl (by simpa using ⟨parts key (by simp), value⟩)
    case object | array | spreadElement =>
      simp only [pattern?, Option.ite_none_left_eq_some, Option.map_eq_some_iff] at read
      obtain ⟨-, inner, again, rfl⟩ := read
      exact shaped_plain rfl (Shaped.patterns _ cs parts inner again)
    -- a default keeps both sides; the left one was read as a pattern when the assignment was
    case assignmentExpression =>
      simp only [pattern?, Option.ite_none_right_eq_some, Option.some.injEq] at read
      exact read.2 ▸ shaped_plain rfl parts
    case shorthandProperty | shorthandDefault =>
      simp only [pattern?, Option.ite_none_right_eq_some, Option.some.injEq] at read
      exact read.2 ▸ good
    -- an access may be assigned to, and stays as it is
    case identifier | undefined | memberExpression | subscriptExpression | objectPattern | arrayPattern =>
      simp only [pattern?, Option.ite_none_left_eq_some, Option.some.injEq] at read
      exact read.2 ▸ good
    all_goals cases read

theorem Shaped.patterns (place : Place) : (ns : List Node) → (∀ n ∈ ns, n.Shaped) →
    ∀ ps, patterns? place ns = some ps → ∀ p ∈ ps, p.Shaped
  | [], _, ps, read => by
    cases read
    simp
  | n :: rest, parts, ps, read => by
    rw [patterns?] at read
    cases first : pattern? place n with
    | none => simp [first] at read
    | some q =>
      cases others : patterns? place rest with
      | none => simp [first, others] at read
      | some qs =>
        obtain rfl : q :: qs = ps := by simpa [first, others] using read
        intro p member
        rcases List.mem_cons.1 member with rfl | member
        · exact Shaped.pattern place n (parts n List.mem_cons_self) p first
        · exact Shaped.patterns place rest (fun x member => parts x (List.mem_cons_of_mem n member)) qs others p member

end

end Node

def Reader.Yields {α : Type} (P : α → Prop) (r : Reader α) : Prop :=
  ∀ c v c', r c = some (v, c') → P v

namespace Reader.Yields

variable {α β : Type} {P : α → Prop} {Q : β → Prop}

theorem bind {r : Reader α} {f : α → Reader β} (first : Yields P r) (next : ∀ v, P v → Yields Q (f v)) :
    Yields Q (r >>= f) := by
  intro c v c' ran
  obtain ⟨⟨a, d⟩, read, rest⟩ := Option.bind_eq_some_iff.1 ran
  exact next a (first c a d read) d v c' rest

theorem skip {r : Reader α} {f : α → Reader β} (next : ∀ v, Yields Q (f v)) : Yields Q (r >>= f) :=
  bind (P := fun _ => True) (fun _ _ _ _ => trivial) fun v _ => next v

theorem mono {P' : α → Prop} {r : Reader α} (read : Yields P r) (weaker : ∀ v, P v → P' v) : Yields P' r :=
  fun c v c' ran => weaker v (read c v c' ran)

theorem pure {v : β} (holds : Q v) : Yields Q (Pure.pure v : Reader β) := by
  intro c w c' ran
  cases ran
  exact holds

theorem failure : Yields Q (Alternative.failure : Reader β) := by
  intro c v c' ran
  cases ran

theorem orElse {r r' : Reader β} (left : Yields Q r) (right : Yields Q r') : Yields Q (r <|> r') := by
  intro c v c' ran
  have either : (r c).orElse (fun _ => r' c) = some (v, c') := ran
  cases read : r c with
  | none => exact right c v c' (by simpa [read] using either)
  | some found => exact left c v c' (by simpa [read] using either)

theorem map {r : Reader α} {f : α → β} (first : Yields P r) (next : ∀ v, P v → Q (f v)) : Yields Q (f <$> r) := by
  rw [map_eq_pure_bind]
  exact first.bind fun v holds => .pure (next v holds)

theorem offered {r : Reader β} (first : Yields Q r) : Yields (fun o => ∀ v ∈ o, Q v) (some <$> r) :=
  first.map fun v holds w member => by
    cases member
    exact holds

theorem declined : Yields (fun o => ∀ v ∈ o, Q v) (Pure.pure none : Reader (Option β)) := .pure (by simp)

theorem many {item : Reader (Option Node)} {S : Node → Prop} (each : Yields (fun o => ∀ v ∈ o, S v) item) (n : Nat) :
    Yields (fun ns => ∀ v ∈ ns, S v) (many item n) := by
  induction n with
  | zero => exact .failure
  | succ n ih =>
    refine each.bind fun o holds => ?_
    cases o with
    | none => exact .pure (by simp)
    | some x => exact ih.bind fun rest others => .pure (by simpa using ⟨holds x rfl, others⟩)

theorem nodeOf {kind : Kind} {start : Nat} {cs : List Node} (plain : kind.isPlain = true)
    (parts : ∀ n ∈ cs, n.Shaped) : Yields (fun n => n.Shaped ∧ n.kind = kind) (node kind start cs) :=
  .skip fun _ => .pure ⟨Node.shaped_plain plain parts, rfl⟩

theorem node {kind : Kind} {start : Nat} {cs : List Node} (plain : kind.isPlain = true)
    (parts : ∀ n ∈ cs, n.Shaped) : Yields Node.Shaped (node kind start cs) :=
  (nodeOf plain parts).mono fun _ holds => holds.1

end Reader.Yields

namespace Grammar

open Node (Shaped)
open Reader (Yields)

def Rules.Good (rules : Rules) : Prop := ∀ goal, Yields Shaped (rules goal)

variable {rules : Rules}

theorem yields_lexeme (kind : Kind) (recognise : Point → Option Point) :
    Yields (fun n => n.Shaped ∧ n.children = [] ∧ n.kind = kind) (Reader.lexeme kind recognise) := by
  refine .skip fun c => ?_
  dsimp only
  split
  next p _ => exact .skip fun _ => .pure ⟨Node.shaped_leaf kind _ _, rfl, rfl⟩
  next => exact .failure

theorem shaped_lexeme (kind : Kind) (recognise : Point → Option Point) :
    Yields Shaped (Reader.lexeme kind recognise) :=
  (yields_lexeme kind recognise).mono fun _ holds => holds.1

theorem shaped_word (kind : Kind) : Yields Shaped (word kind) := shaped_lexeme kind _

theorem yields_slots {close : String} {item : Reader Node} (each : Yields Shaped item) (n : Nat) :
    Yields (fun list => ∀ v ∈ list.items, v.Shaped) (slots close item n) := by
  induction n with
  | zero => exact .failure
  | succ n ih =>
    refine .skip fun closes => ?_
    split
    next => exact .pure (by simp)
    refine .skip fun comma => ?_
    split
    next => exact ih.bind fun rest others => .pure others
    refine each.bind fun first good => .skip fun closes => ?_
    split
    next => exact .pure (by simpa using good)
    refine .skip fun _ => .skip fun closes => ?_
    split
    next => exact .pure (by simpa using good)
    exact ih.bind fun rest others => .pure (by simpa using ⟨good, others⟩)

section
variable (good : Rules.Good rules)
include good

theorem shaped_spread : Yields Shaped (spread rules) :=
  .skip fun _ => .skip fun _ => (good _).bind fun _ inner => .node rfl (by simpa using inner)

theorem shaped_entry : Yields Shaped (entry rules) := by
  refine .skip fun dots => ?_
  split
  next => exact shaped_spread good
  next => exact good _

theorem shaped_array : Yields Shaped (array rules) :=
  .skip fun _ => .skip fun _ => .skip fun n => (yields_slots (shaped_entry good) n).bind fun _ items => .node rfl items

theorem yields_arguments : Yields (fun n => n.Shaped ∧ n.kind = .arguments) (arguments rules) := by
  refine .skip fun start => .skip fun _ => .skip fun n => ?_
  exact (yields_slots (shaped_entry good) n).bind fun list items => .nodeOf rfl items

theorem shaped_parameters : Yields Shaped (parameters rules) := by
  refine .skip fun start => .skip fun _ => .skip fun n => ?_
  refine (yields_slots (shaped_entry good) n).bind fun list items => .skip fun _ => ?_
  split
  next ps read => exact .node rfl (Node.Shaped.patterns .binding list.items items ps read)
  next => exact .failure

theorem yields_templatePieces (n : Nat) : Yields (fun ns => ∀ v ∈ ns, v.Shaped) (templatePieces rules n) := by
  induction n with
  | zero => exact .failure
  | succ n ih =>
    have more {piece : Node} (shaped : piece.Shaped) :
        Yields (fun ns => ∀ v ∈ ns, v.Shaped) (do return piece :: (← templatePieces rules n)) :=
      ih.bind fun rest others => .pure (by simpa using ⟨shaped, others⟩)
    refine .skip fun c => ?_
    split
    next => exact .failure
    next => exact .skip fun _ => .pure (by simp)
    next =>
      refine .skip fun _ => (good _).bind fun inner shaped => .skip fun _ => ?_
      exact (Yields.node rfl (by simpa using shaped)).bind fun _ piece => more piece
    next =>
      split
      next => exact .failure
      next => exact .skip fun _ => (Yields.node rfl (by simp)).bind fun _ piece => more piece
    next => exact .skip fun _ => (Yields.node rfl (by simp)).bind fun _ piece => more piece

theorem yields_template : Yields (fun n => n.Shaped ∧ n.kind = .templateString) (template rules) := by
  refine .skip fun start => .skip fun _ => .skip fun n => ?_
  exact (yields_templatePieces good n).bind fun pieces parts => .nodeOf rfl parts

theorem shaped_propertyName : Yields Shaped (propertyName rules) := by
  refine .skip fun cs => ?_
  split
  next =>
    refine .skip fun start => .skip fun _ => (good _).bind fun inner shaped => .skip fun _ => ?_
    exact .node rfl (by simpa using shaped)
  next => exact shaped_lexeme _ _
  next => exact shaped_lexeme _ _
  next => exact shaped_lexeme _ _
  next =>
    split
    next => exact shaped_lexeme _ _
    next => exact shaped_word _
  next => exact .failure

end

theorem yields_memberName : Yields (fun n => n.children = []) memberName := by
  have leaf (kind : Kind) (recognise : Point → Option Point) :
      Yields (fun n => n.children = []) (Reader.lexeme kind recognise) :=
    (yields_lexeme kind recognise).mono fun _ holds => holds.2.1
  refine .skip fun hash => ?_
  split
  next => exact leaf _ _
  next => exact leaf _ _

theorem shaped_dotted {base : Node} (shaped : base.Shaped) (n : Nat) : Yields Shaped (dotted base n) := by
  induction n generalizing base with
  | zero => exact .failure
  | succ n ih =>
    refine .skip fun dot => ?_
    split
    next => exact (yields_lexeme .propertyIdentifier _).bind fun name leaf => ih (Node.shaped_access shaped leaf.2.1)
    next => exact .pure shaped

section
variable (good : Rules.Good rules)
include good

theorem shaped_decorator : Yields Shaped (decorator rules) := by
  refine .skip fun start => .skip fun _ => (shaped_word .identifier).bind fun base shaped => .skip fun n => ?_
  refine (shaped_dotted shaped n).bind fun callee shaped => .skip fun opens => ?_
  split
  next =>
    refine (yields_arguments good).bind fun passed arguments => .node rfl ?_
    rw [List.forall_mem_singleton]
    exact Node.shaped_call shaped arguments.1 (.inl arguments.2)
  next => exact .node rfl (by simpa using shaped)

theorem yields_decorators : Yields (fun ns => ∀ v ∈ ns, v.Shaped) (decorators rules) := by
  refine .skip fun n => .many (.skip fun marked => ?_) n
  split
  next => exact (shaped_decorator good).offered
  next => exact .declined

theorem shaped_block : Yields Shaped (block rules) := by
  refine .skip fun start => .skip fun _ => .skip fun n => ?_
  refine (Yields.many (S := Shaped) (.skip fun closes => ?_) n).bind fun body parts => .skip fun _ => .node rfl parts
  split
  next => exact .declined
  next => exact (good _).offered

theorem shaped_functionBody (goesOn : Bool) : Yields Shaped (functionBody rules goesOn) := by
  refine (shaped_block good).bind fun body shaped => .skip fun _ => .node rfl fun n member => ?_
  exact shaped.child member

theorem shaped_functionFrom (start : Nat) : Yields Shaped (functionFrom rules start) := by
  have named : Yields (fun ns => ∀ v ∈ ns, v.Shaped) functionName := by
    refine .skip fun cs => ?_
    split
    next => exact (shaped_word .identifier).bind fun name shaped => .pure (by simpa using shaped)
    next => exact .pure (by simp)
  refine .skip fun _ => .skip fun generator => named.bind fun name names => ?_
  refine (shaped_parameters good).bind fun parameters first => ?_
  refine (shaped_functionBody good true).bind fun body second => .node (by cases generator <;> rfl) ?_
  grind

theorem shaped_methodFrom (start : Nat) {before : List Node} (marks : ∀ v ∈ before, v.Shaped) (goesOn : Bool) :
    Yields Shaped (methodFrom rules start before goesOn) := by
  refine (shaped_parameters good).bind fun parameters first => ?_
  exact (shaped_functionBody good goesOn).bind fun body second => .node rfl (by grind)

theorem shaped_objectMember : Yields Shaped (objectMember rules) := by
  refine .skip fun dots => ?_
  split
  next => exact shaped_spread good
  refine .skip fun start => (yields_decorators good).bind fun marks shaped => .skip fun modified => ?_
  refine (shaped_propertyName good).bind fun name named => .skip fun opens => ?_
  split
  next => exact shaped_methodFrom good start (by grind) false
  refine .skip fun _ => .skip fun colon => ?_
  split
  next => exact (good _).bind fun value shaped => .node rfl (by simpa using ⟨named, shaped⟩)
  have short : (name.withKind .shorthandProperty).Shaped := named.withKind rfl
  refine .skip fun _ => .skip fun equals => ?_
  split
  next => exact .skip fun _ => (good _).bind fun value shaped => .node rfl (by simpa using ⟨short, shaped⟩)
  next => exact .pure short

theorem shaped_object : Yields Shaped (object rules) :=
  .skip fun _ => .skip fun _ => .skip fun n =>
    (yields_slots (shaped_objectMember good) n).bind fun _ items => .node rfl items

theorem shaped_classMember : Yields Shaped (classMember rules) := by
  refine .skip fun static => .skip fun after => ?_
  split
  next =>
    refine .skip fun start => .skip fun _ => (shaped_block good).bind fun body shaped => ?_
    exact .node rfl (by simpa using shaped)
  refine .skip fun start => (yields_decorators good).bind fun marks shaped => .skip fun modified => ?_
  refine (shaped_propertyName good).bind fun name named => .skip fun opens => ?_
  split
  next =>
    refine (shaped_methodFrom good start (by grind) false).bind fun method shaped => .skip fun _ => ?_
    exact .pure shaped
  refine .skip fun equals => ?_
  split
  next =>
    refine .skip fun _ => (good _).bind fun value second => ?_
    exact (Yields.node rfl (by grind)).bind fun field whole => .skip fun _ => .pure whole
  next => exact (Yields.node rfl (by grind)).bind fun field whole => .skip fun _ => .pure whole

theorem yields_classMembers (n : Nat) : Yields (fun ns => ∀ v ∈ ns, v.Shaped) (classMembers rules n) := by
  induction n with
  | zero => exact .failure
  | succ n ih =>
    refine .skip fun closes => ?_
    split
    next => exact .pure (by simp)
    refine .skip fun empty => ?_
    split
    next => exact ih
    refine (shaped_classMember good).bind fun member shaped => ih.bind fun rest others => ?_
    exact .pure (by simpa using ⟨shaped, others⟩)

theorem shaped_classFrom {kind : Kind} (plain : kind.isPlain = true) (start : Nat) {marks : List Node}
    (shaped : ∀ v ∈ marks, v.Shaped) : Yields Shaped (classFrom rules kind start marks) := by
  have named : Yields (fun ns => ∀ v ∈ ns, v.Shaped) className := by
    refine .skip fun cs => .skip fun extends' => ?_
    split
    next => exact (shaped_word .identifier).bind fun name shaped => .pure (by simpa using shaped)
    next => exact .pure (by simp)
  have inherited : Yields (fun ns => ∀ v ∈ ns, v.Shaped) (classFrom.heritage rules) := by
    refine .skip fun start => .skip fun found => ?_
    split
    next =>
      refine (good _).bind fun parent shaped => ?_
      exact (Yields.node rfl (by simpa using shaped)).bind fun whole shaped => .pure (by simpa using shaped)
    next => exact .pure (by simp)
  have body : Yields Shaped (classBody rules) :=
    .skip fun _ => .skip fun _ => .skip fun n => (yields_classMembers good n).bind fun _ members => .node rfl members
  refine .skip fun _ => named.bind fun name first => inherited.bind fun parent second => ?_
  exact body.bind fun body third => .node plain (by grind)

end

end Grammar

end ClassLinker.Script
