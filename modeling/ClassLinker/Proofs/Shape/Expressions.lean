import ClassLinker.Proofs.Shape

set_option autoImplicit false

namespace ClassLinker.Script.Grammar

open Node (Shaped)
open Reader (Yields)

variable {rules : Rules}

theorem shaped_target {left target : Node} (shaped : left.Shaped)
    (read : (if left.kind = .parenthesizedExpression then some left else left.target?) = some target) :
    target.Shaped := by
  split at read
  next =>
    cases read
    exact shaped
  next => exact Node.Shaped.pattern .target left shaped target read

theorem shaped_markupName : Yields Shaped markupName := shaped_lexeme .identifier _

theorem shaped_elementName : Yields Shaped elementName := by
  refine shaped_markupName.bind fun first shaped => .skip fun colon => ?_
  split
  next =>
    refine shaped_markupName.bind fun second shaped' => .pure ?_
    exact Node.shaped_plain rfl (by simpa using ⟨shaped, shaped'⟩)
  next => exact .skip fun n => shaped_dotted shaped n

theorem shaped_attributeName : Yields Shaped attributeName := by
  refine shaped_markupName.bind fun first shaped => .skip fun colon => ?_
  split
  next =>
    refine shaped_markupName.bind fun second shaped' => .pure ?_
    exact Node.shaped_plain rfl (by simpa using ⟨shaped, shaped'⟩)
  next => exact .pure (shaped.withKind rfl)

theorem shaped_closingTag : Yields Shaped closingTag := by
  refine .skip fun start => .skip fun _ => .skip fun closes => ?_
  split
  next => exact .node rfl (by simp)
  next => exact shaped_elementName.bind fun name shaped => .skip fun _ => .node rfl (by simpa using shaped)

section
variable (good : Rules.Good rules)
include good

theorem shaped_embedded : Yields Shaped (embedded rules) := by
  refine .skip fun start => .skip fun _ => .skip fun closes => ?_
  split
  next => exact .node rfl (by simp)
  refine .skip fun dots => ?_
  split
  next => exact (shaped_spread good).bind fun inner shaped => .skip fun _ => .node rfl (by simpa using shaped)
  next => exact (good _).bind fun inner shaped => .skip fun _ => .node rfl (by simpa using shaped)

theorem shaped_attributeValue : Yields Shaped (attributeValue rules) := by
  refine .skip fun cs => ?_
  split
  next => exact shaped_embedded good
  next => exact good _
  next => exact shaped_lexeme _ _

theorem shaped_tagAttribute : Yields Shaped (tagAttribute rules) := by
  refine .skip fun opens => ?_
  split
  next => exact shaped_embedded good
  refine .skip fun start => shaped_attributeName.bind fun name named => .skip fun equals => ?_
  split
  next => exact (shaped_attributeValue good).bind fun value shaped => .node rfl (by simpa using ⟨named, shaped⟩)
  next => exact .node rfl (by simpa using named)

theorem yields_tagAttributes : Yields (fun ns => ∀ v ∈ ns, v.Shaped) (tagAttributes rules) := by
  refine .skip fun n => .many (.skip fun cs => ?_) n
  split
  next => exact .declined
  next => exact .declined
  next => exact (shaped_tagAttribute good).offered

theorem yields_content (n : Nat) : Yields (fun ns => ∀ v ∈ ns, v.Shaped) (content rules n) := by
  induction n with
  | zero => exact .failure
  | succ n ih =>
    have more {piece : Node} (shaped : piece.Shaped) :
        Yields (fun ns => ∀ v ∈ ns, v.Shaped) (do return piece :: (← content rules n)) :=
      ih.bind fun rest others => .pure (by simpa using ⟨shaped, others⟩)
    refine .skip fun c => ?_
    split
    next => exact .skip fun _ => (Yields.node rfl (by simp)).bind fun _ piece => more piece
    refine .skip fun cs => ?_
    split
    next => exact .pure (by simp)
    next => exact (good _).bind fun _ piece => more piece
    next => exact (shaped_embedded good).bind fun _ piece => more piece
    next => exact (shaped_lexeme _ _).bind fun _ piece => more piece

theorem shaped_element : Yields Shaped (element rules) := by
  have inside (start : Nat) {opening : Node} (shaped : opening.Shaped) :
      Yields Shaped (element.inside rules start opening) := by
    refine .skip fun n => (yields_content good n).bind fun pieces parts => ?_
    exact shaped_closingTag.bind fun closing last => .node rfl (by grind)
  refine .skip fun start => .skip fun _ => .skip fun closes => ?_
  split
  next => exact (Yields.node rfl (by simp)).bind fun _ opening => inside start opening
  refine shaped_elementName.bind fun name named => (yields_tagAttributes good).bind fun attributes parts => ?_
  have both : ∀ v ∈ name :: attributes, v.Shaped := by simpa using ⟨named, parts⟩
  refine .skip fun ends => ?_
  split
  next => exact .node rfl both
  next => exact .skip fun _ => (Yields.node rfl both).bind fun _ opening => inside start opening

theorem shaped_arrowFrom (start : Nat) {parameters : Node} (first : parameters.Shaped) :
    Yields Shaped (arrowFrom rules start parameters) := by
  have body : Yields Shaped (arrowBody rules) := by
    refine .skip fun opens => ?_
    split
    next => exact shaped_functionBody good true
    next => exact good _
  exact .skip fun _ => body.bind fun body second => .node rfl (by simpa using ⟨first, second⟩)

theorem shaped_parenthesized : Yields Shaped (parenthesized rules) := by
  refine .skip fun start => .skip fun _ => .skip fun n => ?_
  refine (yields_slots (shaped_entry good) n).bind fun list items => .skip fun _ => ?_
  refine (Yields.node rfl items).bind fun whole shaped => .skip fun arrow => ?_
  split
  next =>
    split
    next ps read =>
      exact shaped_arrowFrom good start (Node.shaped_plain rfl (Node.Shaped.patterns .binding list.items items ps read))
    next => exact .failure
  refine .skip fun _ => ?_
  split
  next => exact .failure
  next => exact .pure shaped
  next =>
    have inner {first last : Node} : Shaped (.spanning .sequenceExpression first last list.items) :=
      Node.shaped_plain rfl items
    exact .pure (Node.shaped_plain rfl (by simpa using inner))

theorem shaped_asynchronous : Yields Shaped (asynchronous rules) := by
  refine (shaped_word .identifier).bind fun name named => .skip fun opens => ?_
  split
  next =>
    refine .skip fun start => .skip fun _ => .skip fun n => ?_
    refine (yields_slots (shaped_entry good) n).bind fun list items => ?_
    refine (Yields.nodeOf rfl items).bind fun passed whole => .skip fun arrow => ?_
    split
    next =>
      refine .skip fun _ => ?_
      split
      next ps read =>
        exact shaped_arrowFrom good _ (Node.shaped_plain rfl (Node.Shaped.patterns .binding list.items items ps read))
      next => exact .failure
    -- without an arrow it was a call after all
    next => exact .skip fun _ => .pure (Node.shaped_call named whole.1 (.inl whole.2))
  refine .skip fun arrow => ?_
  split
  next => exact shaped_arrowFrom good _ named
  refine .skip fun ends => ?_
  split
  next => exact .pure named
  refine .skip fun function => ?_
  split
  next => exact shaped_functionFrom good _
  refine .skip fun cs => .skip fun cs' => .skip fun of => ?_
  split
  next => exact (shaped_word .identifier).bind fun parameter shaped => shaped_arrowFrom good _ shaped
  next => exact .pure named

theorem shaped_wordOperand : Yields Shaped (wordOperand rules) := by
  have imported : Yields Shaped importOperand := by
    refine (shaped_word .importCallee).bind fun callee shaped => .skip fun opens => ?_
    split
    next => exact .pure shaped
    refine .skip fun _ => (yields_lexeme .propertyIdentifier _).bind fun name leaf => ?_
    refine .skip fun stop => .pure ?_
    split
    next => exact Node.shaped_plain rfl (by simpa using ⟨shaped, leaf.1⟩)
    next => exact Node.shaped_access shaped leaf.2.1
  refine .skip fun start => .skip fun text => ?_
  split
  next => exact shaped_word _
  split
  next => exact shaped_functionFrom good start
  split
  next => exact shaped_classFrom good rfl start (by simp)
  split
  next => exact imported
  split
  next => exact shaped_asynchronous good
  refine (shaped_word .identifier).bind fun name named => .skip fun arrow => ?_
  split
  next => exact shaped_arrowFrom good start named
  next => exact .pure named

theorem shaped_simpleOperand : Yields Shaped (simpleOperand rules) := by
  refine .skip fun cs => ?_
  split
  next => exact .failure
  next => exact shaped_parenthesized good
  next => exact shaped_array good
  next => exact shaped_object good
  next => exact shaped_lexeme _ _
  next => exact shaped_lexeme _ _
  next => exact (yields_template good).mono fun _ holds => holds.1
  next => exact shaped_lexeme _ _
  next => exact good _
  next => exact (shaped_lexeme _ _).bind fun name named => .skip fun _ => .skip fun _ => .pure named
  next =>
    exact .skip fun start => (yields_decorators good).bind fun marks shaped =>
      shaped_classFrom good rfl start shaped
  next =>
    split
    next => exact shaped_lexeme _ _
    next => exact shaped_wordOperand good

theorem shaped_subscript {base : Node} (shaped : base.Shaped) : Yields Shaped (subscript rules base) :=
  .skip fun _ => (good _).bind fun _ index => .skip fun _ => .node rfl (by simpa using ⟨shaped, index⟩)

theorem shaped_attached (calls : Bool) {base : Node} (shaped : base.Shaped) (n : Nat) :
    Yields Shaped (attached rules calls base n) := by
  induction n generalizing base with
  | zero => exact .failure
  | succ n ih =>
    -- the three ways to go on, each of which gives the next step a shaped base; the first two are where the shape
    -- comes from, as all other nodes are plain
    have called : Yields Shaped (do
        let passed ← arguments rules
        attached rules calls (.spanning .callExpression base passed [base, passed]) n) :=
      (yields_arguments good).bind fun passed list => ih (Node.shaped_call shaped list.1 (.inl list.2))
    have accessed : Yields Shaped (do
        let name ← memberName
        attached rules calls (.spanning .memberExpression base name [base, name]) n) :=
      yields_memberName.bind fun name leaf => ih (Node.shaped_access shaped leaf)
    have indexed : Yields Shaped (do attached rules calls (← subscript rules base) n) :=
      (shaped_subscript good shaped).bind fun next shaped => ih shaped
    refine .skip fun cs => ?_
    split
    next =>
      split
      next => exact .pure shaped
      refine .skip fun _ => .skip fun opens => ?_
      split
      next => exact called
      refine .skip fun brackets => ?_
      split
      next => exact indexed
      next => exact accessed
    next => exact .skip fun _ => accessed
    next => exact indexed
    next =>
      refine (yields_template good).bind fun text template => ?_
      exact ih (Node.shaped_call shaped template.1 (.inr template.2))
    next =>
      split
      next => exact called
      next => exact .pure shaped
    next => exact .pure shaped

theorem shaped_construction (n : Nat) : Yields Shaped (construction rules n) := by
  have constructed (start : Nat) {base : Node} (shaped : base.Shaped) :
      Yields Shaped (constructed rules start base) := by
    refine .skip fun n => (shaped_attached good false shaped n).bind fun callee first => .skip fun opens => ?_
    split
    next => exact (yields_arguments good).bind fun passed second => .node rfl (by simpa using ⟨first, second.1⟩)
    next => exact .node rfl (by simpa using first)
  induction n with
  | zero => exact .failure
  | succ n ih =>
    refine .skip fun start => .skip fun _ => .skip fun dot => ?_
    split
    next => exact .skip fun _ => .node rfl (by simp)
    refine .skip fun again => ?_
    split
    next => exact ih.bind fun base shaped => constructed start shaped
    next => exact (shaped_simpleOperand good).bind fun base shaped => constructed start shaped

theorem shaped_accessOperand : Yields Shaped (accessOperand rules) := by
  have based : Yields Shaped (baseOperand rules) := by
    refine .skip fun new => ?_
    split
    next => exact .skip fun n => shaped_construction good n
    next => exact shaped_simpleOperand good
  refine based.bind fun base shaped => .skip fun n => ?_
  refine (shaped_attached good true shaped n).bind fun whole shaped => .skip fun plus => .skip fun minus => ?_
  have updated : Yields Shaped (Reader.node .updateExpression whole.start [whole]) := .node rfl (by simpa using shaped)
  split
  next =>
    refine .skip fun ends => ?_
    split
    next => exact .pure shaped
    refine .skip fun plus => ?_
    split
    next => exact .skip fun _ => updated
    next => exact .skip fun _ => updated
  next => exact .pure shaped

theorem shaped_assignedTo {left : Node} (shaped : left.Shaped) : Yields Shaped (assignedTo rules left) := by
  refine .skip fun equals => ?_
  split
  next =>
    refine .skip fun _ => ?_
    dsimp only
    split
    next target read =>
      have first : target.Shaped := shaped_target shaped read
      exact (good _).bind fun value second => .node rfl (by simpa using ⟨first, second⟩)
    next => exact .failure
  refine .skip fun cs => ?_
  split
  next => exact .pure shaped
  next =>
    exact .skip fun _ => .skip fun _ => (good _).bind fun value second =>
      .node rfl (by simpa using ⟨shaped, second⟩)

theorem shaped_yielded : Yields Shaped (yielded rules) := by
  have value (start : Nat) : Yields Shaped (do Reader.node .yieldExpression start [← rules (.expression 0)]) :=
    (good _).bind fun inner shaped => .node rfl (by simpa using shaped)
  refine .skip fun start => .skip fun _ => .skip fun star => ?_
  split
  next => exact value start
  refine .skip fun ends => ?_
  split
  next => exact .node rfl (by simp)
  refine .skip fun cs => ?_
  split
  next => exact value start
  next => exact .node rfl (by simp)

theorem shaped_operand : Yields Shaped (operand rules) := by
  have applied {kind : Kind} (plain : kind.isPlain = true) (start : Nat) :
      Yields Shaped (do Reader.node kind start [← rules (.expression unaryLevel)]) :=
    (good _).bind fun inner shaped => .node plain (by simpa using shaped)
  refine .skip fun start => .skip fun text => ?_
  split
  next => exact .skip fun _ => applied (by split <;> rfl) start
  split
  next => exact shaped_yielded good
  refine .skip fun plus => .skip fun minus => ?_
  split
  next => exact applied rfl start
  refine .skip fun _ => .skip fun _ => .skip fun _ => .skip fun _ => ?_
  split
  next => exact applied rfl start
  next => exact (shaped_accessOperand good).bind fun left shaped => shaped_assignedTo good shaped

theorem shaped_operated (level : Nat) {left : Node} (shaped : left.Shaped) (n : Nat) :
    Yields Shaped (operated rules level left n) := by
  induction n generalizing left with
  | zero => exact .failure
  | succ n ih =>
    refine .skip fun next => ?_
    split
    next =>
      split
      next => exact .pure shaped
      refine .skip fun _ => (good _).bind fun yes second => .skip fun _ => (good _).bind fun no third => ?_
      exact ih (Node.shaped_plain rfl (by simpa using ⟨shaped, second, third⟩))
    split
    next => exact .pure shaped
    split
    next => exact .pure shaped
    refine .skip fun _ => (good _).bind fun right second => ?_
    exact ih (Node.shaped_plain rfl (by simpa using ⟨shaped, second⟩))

theorem shaped_expression (level : Nat) : Yields Shaped (expression rules level) :=
  (shaped_operand good).bind fun _ shaped => .skip fun n => shaped_operated good level shaped n

theorem shaped_sequence : Yields Shaped (sequence rules) := by
  have more : Yields (fun ns => ∀ v ∈ ns, v.Shaped) (moreExpressions rules) := by
    refine .skip fun n => .many (.skip fun comma => ?_) n
    split
    next => exact (good _).offered
    next => exact .declined
  refine (good _).bind fun first shaped => more.bind fun rest others => ?_
  split
  next => exact .pure shaped
  next => exact .node rfl (by simpa using ⟨shaped, others⟩)

end

end ClassLinker.Script.Grammar
