import ClassLinker.Proofs.Placement.Literals

set_option autoImplicit false

namespace ClassLinker.Script.Grammar

open HasNodes (nodes)
open Reader

variable {source : List Char} {rules : Rules} {lo start : Nat} {moved : Bool}

theorem spans_target {left target : Node} {hi : Nat}
    (read : (if left.kind = .parenthesizedExpression then some left else left.target?) = some target)
    (spans : Spans source lo hi [left]) : Spans source lo hi [target] := by
  split at read
  next =>
    cases read
    exact spans
  next => exact (Spans.pattern .target left read spans).1

theorem reads_markupName : Reads source markupName := reads_lexeme .identifier Lexeme.advances_markupName?

theorem reads_elementName : Reads source elementName := by
  refine fun lo => reads_markupName.bind fun first => (carries_symbol? ":").bind fun colon => ?_
  split
  next =>
    refine reads_markupName.bind fun second => .replace (.done rfl) fun hi spans => ?_
    exact spans.spanning (List.cons_ne_nil _ _)
  next => exact .look looks_bound fun n => carries_dotted n

theorem reads_attributeName : Reads source attributeName := by
  refine fun lo => reads_markupName.bind fun first => (carries_symbol? ":").bind fun colon => ?_
  split
  next =>
    refine reads_markupName.bind fun second => .replace (.done rfl) fun hi spans => ?_
    exact spans.spanning (List.cons_ne_nil _ _)
  next => exact .replace (.done rfl) fun hi spans => spans.withKind

theorem reads_closingTag : Reads source closingTag := by
  refine .here fun start => (carries_symbol "</").bind fun _ => (carries_symbol? ">").bind fun closes => ?_
  split
  next => exact .node (by simp)
  next => exact reads_elementName.bind fun name => (carries_symbol ">").bind fun _ => .node (by simp)

section
variable (good : Rules.Forward source rules)
include good

theorem reads_embedded : Reads source (embedded rules) := by
  refine .here fun start => (carries_symbol _).bind fun _ => (carries_symbol? _).bind fun closes => ?_
  split
  next => exact .node (by simp)
  refine .look (looks_sees "...") fun dots => ?_
  split
  next => exact (reads_spread good).bind fun inner => (carries_symbol _).bind fun _ => .node (by simp)
  next => exact (good _).bind fun inner => (carries_symbol _).bind fun _ => .node (by simp)

theorem reads_attributeValue : Reads source (attributeValue rules) := by
  refine .look looks_peek fun cs => ?_
  split
  next => exact reads_embedded good
  next => exact good _
  next => exact reads_lexeme _ Lexeme.advances_markupString?

theorem reads_tagAttribute : Reads source (tagAttribute rules) := by
  refine .look (looks_sees _) fun opens => ?_
  split
  next => exact reads_embedded good
  refine .here fun start => reads_attributeName.bind fun name => (carries_symbol? "=").bind fun equals => ?_
  split
  next => exact (reads_attributeValue good).bind fun value => .node (by simp)
  next => exact .node (by simp)

theorem extends_tagAttributes : Extends source (tagAttributes rules) := by
  refine .look looks_bound fun n => .many (.look looks_peek fun cs => ?_) n
  split
  next => exact .none rfl
  next => exact .none rfl
  next => exact (reads_tagAttribute good).offered

theorem continues_content (n : Nat) : Continues source (content rules n) := by
  intro lo
  induction n generalizing lo with
  | zero => exact .failure
  | succ n ih =>
    have more {piece : Node} : Carries (Stage source lo true [piece])
        (do return piece :: (← content rules n)) fun v => Stage source lo true (nodes v) :=
      Continues.bind ih fun rest => .done (by simp)
    refine .get fun c stage => ?_
    split
    -- text starts right at the cursor: blanks belong to it
    next p taken =>
      refine .set_fresh stage (Lexeme.advances_text? _ _ taken) (.bind (.node (by simp)) fun piece => ?_)
      exact more.given fun d part => stage.append part
    refine .given (.look looks_peek fun cs => ?_) fun d same => same ▸ stage
    split
    next => exact .done rfl
    next => exact (good _).bind fun piece => more
    next => exact (reads_embedded good).bind fun piece => more
    next => exact (reads_lexeme _ Lexeme.advances_reference?).bind fun piece => more

theorem reads_element : Reads source (element rules) := by
  have inside (start : Nat) {opening : Node} : Carries (Stage source start true [opening])
      (element.inside rules start opening) fun n => Stage source start true (nodes n) := by
    refine .look looks_bound fun n => (continues_content good n).bind fun pieces => ?_
    exact reads_closingTag.bind fun closing => .node (by simp)
  refine .here fun start => (carries_symbol "<").bind fun _ => (carries_symbol? ">").bind fun closes => ?_
  split
  next => exact .bind (.node (by simp)) fun opening => inside start
  refine reads_elementName.bind fun name => (extends_tagAttributes good).bind fun attributes => ?_
  refine (carries_symbol? "/>").bind fun ends => ?_
  split
  next => exact .node (by simp)
  next => exact (carries_symbol ">").bind fun _ => .bind (.node (by simp)) fun opening => inside start

theorem carries_arrowFrom {parameters : Node} : Carries (Stage source start true [parameters])
    (arrowFrom rules start parameters) fun n => Stage source start true (nodes n) := by
  have body : Reads source (arrowBody rules) := by
    refine .look (looks_sees _) fun opens => ?_
    split
    next => exact reads_functionBody good true
    next => exact good _
  exact (carries_symbol "=>").bind fun _ => body.bind fun body => .node (by simp)

theorem reads_parenthesized : Reads source (parenthesized rules) := by
  refine .here fun start => (carries_symbol "(").bind fun _ => .look looks_bound fun n => ?_
  refine (extends_slots (reads_entry good) n).bind fun list => .look (looks_require _) fun _ => ?_
  refine .node_then fun stop => .look (looks_sees "=>") fun arrow => ?_
  split
  next =>
    split
    next items read =>
      refine (carries_arrowFrom good).given fun c ⟨stage, same⟩ => ?_
      subst same
      exact (stage.replace (Spans.patterns .binding list.items read stage.spans)).node .formalParameters
    next => exact .failure
  refine .look (looks_require _) fun _ => ?_
  split
  next => exact .failure
  next =>
    refine .pure fun c ⟨stage, same⟩ => ?_
    subst same
    exact stage.node _
  next first second rest items =>
    refine .pure fun c ⟨stage, same⟩ => ?_
    subst same
    have inner := stage.spans
    rw [List.nil_append, nodes_slots, items] at inner
    exact (stage.replace (items ▸ inner.spanning (List.cons_ne_nil second rest))).node _

theorem reads_asynchronous : Reads source (asynchronous rules) := by
  refine fun lo => (reads_word _).bind fun name => .look (looks_sees "(") fun opens => ?_
  have arrow {parameters : Node} : Carries (Stage source lo true [name, parameters])
      (arrowFrom rules name.start parameters) fun n => Stage source lo true (nodes n) :=
    .from_first (.select (carries_arrowFrom good) (by simp))
  split
  next =>
    refine .here fun start resume => (carries_symbol "(").bind fun _ => .look looks_bound fun n => ?_
    refine (extends_slots (reads_entry good) n).bind fun list => .node_then fun stop => ?_
    refine .look (looks_sees "=>") fun arrows => ?_
    split
    next =>
      refine .look (looks_require _) fun _ => ?_
      split
      next items read =>
        refine arrow.given fun c ⟨stage, same⟩ => resume _ c ?_
        subst same
        exact (stage.replace (Spans.patterns .binding list.items read stage.spans)).node .formalParameters
      next => exact .failure
    next =>
      refine .given (.node_first rfl (.refl _)) fun c ⟨stage, same⟩ => resume _ c ?_
      subst same
      exact stage.node .arguments
  refine .look (looks_sees "=>") fun arrows => ?_
  split
  next => exact .from_first (carries_arrowFrom good)
  refine .look (looks_seesHiddenSemicolon true) fun ends => ?_
  split
  next => exact .done rfl
  refine .look (looks_seesWord "function") fun function => ?_
  split
  next => exact .from_first (.select (carries_functionFrom good) (by simp))
  refine .look looks_peek fun cs => .look looks_peek fun cs' => .look (looks_seesWord "of") fun members => ?_
  split
  next => exact (reads_word _).bind fun parameter => arrow
  next => exact .done rfl

omit good in
theorem reads_importOperand : Reads source importOperand := by
  refine fun lo => (reads_word _).bind fun callee => .look (looks_sees "(") fun opens => ?_
  split
  next => exact .done rfl
  next => exact (carries_symbol ".").bind fun _ => (reads_word _).bind fun name => .node_first rfl (.refl _)

theorem reads_wordOperand : Reads source (wordOperand rules) := by
  refine .here fun start => .look looks_peekWord fun text => ?_
  split
  next => exact (reads_word _).carries
  split
  next => exact carries_functionFrom good
  split
  next => exact carries_classFrom good _
  split
  next => exact reads_importOperand.carries
  split
  next => exact (reads_asynchronous good).carries
  refine (reads_word _).bind fun name => .look (looks_sees "=>") fun arrow => ?_
  split
  next => exact carries_arrowFrom good
  next => exact .done rfl

theorem reads_simpleOperand : Reads source (simpleOperand rules) := by
  have privately : Reads source privateOperand := fun lo =>
    reads_privateName.bind fun name => .look (looks_seesWord "in") fun _ => .look (looks_require _) fun _ => .done rfl
  refine .look looks_peek fun cs => ?_
  split
  next => exact .failure
  next => exact reads_parenthesized good
  next => exact reads_array good
  next => exact reads_object good
  next => exact reads_string
  next => exact reads_string
  next => exact reads_template good
  next => exact reads_lexeme _ Lexeme.advances_regex?
  next => exact good _
  next => exact privately
  next => exact .here fun start => (extends_decorators good).bind fun marks => carries_classFrom good _
  next =>
    split
    next => exact reads_number
    next => exact reads_wordOperand good

theorem carries_subscript {base : Node} : Carries (Stage source lo true [base]) (subscript rules base)
    fun n => Stage source lo true (nodes n) :=
  (carries_symbol "[").bind fun _ => (good _).bind fun _ => (carries_symbol "]").bind fun _ =>
    .node_first rfl (.refl _)

theorem carries_attached (calls : Bool) {base : Node} (n : Nat) :
    Carries (Stage source lo true [base]) (attached rules calls base n) fun v => Stage source lo true (nodes v) := by
  induction n generalizing base with
  | zero => exact .failure
  | succ n ih =>
    have joined {kind : Kind} {part : Node} : Carries (Stage source lo true [base, part])
        (attached rules calls (.spanning kind base part [base, part]) n) fun v => Stage source lo true (nodes v) :=
      ih.replace fun hi spans => spans.spanning (List.cons_ne_nil _ _)
    refine .look looks_peek fun cs => ?_
    split
    next =>
      split
      next => exact .done rfl
      refine (carries_symbol "?.").bind fun _ => .look (looks_sees "(") fun opens => ?_
      split
      next => exact (reads_arguments good).bind fun arguments => joined
      refine .look (looks_sees "[") fun opens => ?_
      split
      next => exact (carries_subscript good).bind fun access => ih
      next => exact reads_memberName.bind fun name => joined
    next => exact (carries_symbol ".").bind fun _ => reads_memberName.bind fun name => joined
    next => exact (carries_subscript good).bind fun access => ih
    next => exact (reads_template good).bind fun text => joined
    next =>
      split
      next => exact (reads_arguments good).bind fun arguments => joined
      next => exact .done rfl
    next => exact .done rfl

theorem carries_constructed {base : Node} : Carries (Stage source start true [base]) (constructed rules start base)
    fun n => Stage source start true (nodes n) := by
  refine .look looks_bound fun n => (carries_attached good false n).bind fun callee => ?_
  refine .look (looks_sees "(") fun opens => ?_
  split
  next => exact (reads_arguments good).bind fun arguments => .node (.refl _)
  next => exact .node (.refl _)

theorem reads_construction (n : Nat) : Reads source (construction rules n) := by
  induction n with
  | zero => exact .failure
  | succ n ih =>
    refine .here fun start => (carries_keyword "new").bind fun _ => (carries_symbol? ".").bind fun dot => ?_
    split
    next => exact (carries_keyword "target").bind fun _ => .node (.refl _)
    refine .look (looks_seesWord "new") fun again => ?_
    split
    next => exact ih.bind fun base => carries_constructed good
    next => exact (reads_simpleOperand good).bind fun base => carries_constructed good

theorem reads_accessOperand : Reads source (accessOperand rules) := by
  have base : Reads source (baseOperand rules) := by
    refine .look (looks_seesWord "new") fun constructs => ?_
    split
    next => exact .look looks_bound fun n => reads_construction good n
    next => exact reads_simpleOperand good
  refine fun lo => base.bind fun base => .look looks_bound fun n => (carries_attached good true n).bind fun whole => ?_
  refine .look (looks_sees "++") fun plus => .look (looks_sees "--") fun minus => ?_
  split
  next =>
    refine .look (looks_seesHiddenSemicolon true) fun ends => ?_
    split
    next => exact .done rfl
    refine .look (looks_sees "++") fun plus => ?_
    split
    next => exact (carries_symbol "++").bind fun _ => .node_first rfl (.refl _)
    next => exact (carries_symbol "--").bind fun _ => .node_first rfl (.refl _)
  next => exact .done rfl

theorem carries_assignedTo {left : Node} : Carries (Stage source lo true [left]) (assignedTo rules left)
    fun n => Stage source lo true (nodes n) := by
  refine .look looks_seesEquals fun equals => ?_
  split
  next =>
    refine (carries_symbol "=").bind fun _ => ?_
    dsimp only
    split
    next target read =>
      -- the target starts where the left side does
      refine .from_first (.replace ?_ fun hi spans => spans_target read spans)
      exact (good _).bind fun value => .node (.refl _)
    next => exact .failure
  refine .look looks_peek fun cs => ?_
  split
  next => exact .done rfl
  next =>
    refine .look (looks_require _) fun _ => (carries_symbol _).bind fun _ => ?_
    exact (good _).bind fun value => .node_first rfl (.refl _)

theorem reads_yielded : Reads source (yielded rules) := by
  refine .here fun start => (carries_keyword "yield").bind fun _ => (carries_symbol? "*").bind fun star => ?_
  split
  next => exact (good _).bind fun inner => .node (.refl _)
  refine .look (looks_seesHiddenSemicolon false) fun ends => ?_
  split
  next => exact .node (.refl _)
  refine .look looks_peek fun cs => ?_
  split
  next => exact (good _).bind fun inner => .node (.refl _)
  next => exact .node (.refl _)

theorem reads_operand : Reads source (operand rules) := by
  refine .here fun start => .look looks_peekWord fun text => ?_
  split
  next => exact (carries_symbol _).bind fun _ => (good _).bind fun inner => .node (.refl _)
  split
  next => exact (reads_yielded good).carries
  refine (carries_symbol? "++").bind fun plus => (carries_symbol? "--").bind fun minus => ?_
  split
  next => exact (good _).bind fun inner => .node (.refl _)
  refine (carries_symbol? "!").bind fun _ => (carries_symbol? "~").bind fun _ => ?_
  refine (carries_symbol? "+").bind fun _ => (carries_symbol? "-").bind fun _ => ?_
  split
  next => exact (good _).bind fun inner => .node (.refl _)
  next => exact (reads_accessOperand good).bind fun left => carries_assignedTo good

theorem carries_operated (level : Nat) {left : Node} (n : Nat) :
    Carries (Stage source lo true [left]) (operated rules level left n) fun v => Stage source lo true (nodes v) := by
  induction n generalizing left with
  | zero => exact .failure
  | succ n ih =>
    refine .look looks_peek fun next => ?_
    split
    next =>
      split
      next => exact .done rfl
      refine (carries_symbol "?").bind fun _ => (good _).bind fun yes => (carries_symbol ":").bind fun _ => ?_
      exact (good _).bind fun no => ih.replace fun hi spans => spans.spanning (List.cons_ne_nil _ _)
    split
    next => exact .done rfl
    split
    next => exact .done rfl
    refine (carries_symbol _).bind fun _ => (good _).bind fun right => ?_
    exact ih.replace fun hi spans => spans.spanning (List.cons_ne_nil _ _)

theorem reads_expression (level : Nat) : Reads source (expression rules level) :=
  fun _ => (reads_operand good).bind fun _ => .look looks_bound fun n => carries_operated good level n

theorem reads_sequence : Reads source (sequence rules) := by
  have others : Extends source (moreExpressions rules) := by
    refine .look looks_bound fun n => .many (fun lo moved => (carries_symbol? ",").bind fun comma => ?_) n
    split
    next => exact (good _).offered lo moved
    next => exact .done rfl
  refine fun lo => (good _).bind fun first => others.bind fun rest => ?_
  split
  next => exact .done rfl
  next => exact .node_first rfl (.refl _)

end

end ClassLinker.Script.Grammar
