import ClassLinker.Proofs.Placement.Readers

set_option autoImplicit false

namespace ClassLinker.Script.Grammar

open HasNodes (nodes)
open Reader

def Rules.Forward (source : List Char) (rules : Rules) : Prop := ∀ goal, Reads source (rules goal)

variable {source : List Char} {rules : Rules} {lo start : Nat} {moved : Bool} {ns : List Node}

theorem looks_peekWord : Looks peekWord := looks_peek.bind fun _ => .pure _

theorem looks_seesWord (text : String) : Looks (seesWord text) := looks_peekWord.bind fun _ => .pure _

theorem looks_peekAfter (text : String) : Looks (peekAfter text) := looks_get.bind fun _ => .pure _

theorem looks_seesEquals : Looks seesEquals := by
  refine looks_peek.bind fun cs => ?_
  split <;> exact .pure _

theorem reads_word (kind : Kind) : Reads source (word kind) := reads_lexeme kind Lexeme.advances_word?

theorem reads_privateName : Reads source (lexeme .privateProperty Lexeme.privateName?) :=
  reads_lexeme _ Lexeme.advances_privateName?

theorem reads_string : Reads source (lexeme .string Lexeme.string?) := reads_lexeme _ Lexeme.advances_string?

theorem reads_number : Reads source (lexeme .number Lexeme.number?) := reads_lexeme _ Lexeme.advances_number?

theorem carries_keyword (text : String) :
    Carries (Stage source lo moved ns) (keyword text) fun _ => Stage source lo true ns :=
  .look (looks_seesWord text) fun _ => .look (looks_require _) fun _ => carries_symbol text

theorem carries_keyword? (text : String) :
    Carries (Stage source lo moved ns) (keyword? text) fun _ => Stage source lo moved ns := by
  refine .look (looks_seesWord text) fun found => ?_
  split
  next => exact (carries_symbol text).bind fun _ => .pure fun _ stage => stage.weaken
  next => exact .pure fun _ stage => stage

/-- A clause that a keyword opens: without the keyword nothing has been read. -/
theorem carries_clause {α : Type} {text : String} {present absent : Nat → Reader α} {after : α → Cursor → Prop}
    (clause : ∀ start, (∀ ms c, Stage source start true ms c → Stage source lo true (ns ++ ms) c) →
      Carries (Stage source start true []) (present start) after)
    (none : ∀ start, Carries (Stage source lo moved ns) (absent start) after) :
    Carries (Stage source lo moved ns)
      (here >>= fun start => keyword? text >>= fun found => if found = true then present start else absent start)
      after := by
  intro c v c' stage ran
  obtain ⟨⟨found, d⟩, read, rest⟩ := Option.bind_eq_some_iff.1
    (show (keyword? text c).bind _ = some (v, c') from ran)
  have opened : Carries (· = c) (keyword? text) fun found d =>
      if found = true then Stage source c.skip.offset true [] d else d = c := by
    refine .look (looks_seesWord text) fun found => ?_
    split
    next =>
      have part : Carries (Stage source c.skip.offset false []) (symbol text) _ := carries_symbol text
      refine (part.given fun d same => ?_).bind fun _ => .pure fun _ stage => stage
      subst same
      exact stage.opened
    next => exact .pure fun _ same => same
  have found' := opened c found d rfl read
  cases found with
  | true => exact clause c.skip.offset (fun _ _ part => stage.append_opened part) d v c' found' rest
  | false =>
    obtain rfl : d = c := found'
    exact none _ d v c' stage rest

theorem extends_slots {close : String} {item : Reader Node} (each : Reads source item) (n : Nat) :
    Extends source (slots close item n) := by
  intro lo moved
  induction n generalizing lo moved with
  | zero => exact .failure
  | succ n ih =>
    have more : Extends source (slots close item n) := ih
    refine (carries_symbol? close).bind fun closes => ?_
    split
    next => exact .done rfl
    refine (carries_symbol? ",").bind fun comma => ?_
    split
    next => exact more.bind fun rest => .done (by simp)
    refine each.extends.bind fun first => (carries_symbol? close).bind fun closes => ?_
    split
    next => exact .done (by simp)
    refine (carries_symbol ",").bind fun _ => (carries_symbol? close).bind fun closes => ?_
    split
    next => exact .pure fun _ stage => stage.weaken
    next => exact (more.bind fun rest => .done (by simp)).hence fun _ _ stage => stage.weaken

section
variable (good : Rules.Forward source rules)
include good

theorem reads_spread : Reads source (spread rules) :=
  .here fun _ => (carries_symbol "...").bind fun _ => (good _).bind fun _ => .node (by simp)

theorem reads_entry : Reads source (entry rules) := by
  refine .look (looks_sees "...") fun dots => ?_
  split
  next => exact reads_spread good
  next => exact good _

theorem reads_array : Reads source (array rules) :=
  .here fun _ => (carries_symbol "[").bind fun _ => .look looks_bound fun n =>
    (extends_slots (reads_entry good) n).bind fun _ => .node (by simp)

theorem reads_arguments : Reads source (arguments rules) :=
  .here fun _ => (carries_symbol "(").bind fun _ => .look looks_bound fun n =>
    (extends_slots (reads_entry good) n).bind fun _ => .node (by simp)

theorem reads_parameters : Reads source (parameters rules) := by
  refine .here fun start => (carries_symbol "(").bind fun _ => .look looks_bound fun n => ?_
  refine (extends_slots (reads_entry good) n).bind fun list => .look (looks_require _) fun _ => ?_
  split
  next items read =>
    refine .replace (.node (.refl items)) fun hi spans => Spans.patterns .binding list.items read ?_
    simpa using spans
  next => exact .failure

theorem continues_templatePieces (n : Nat) : Continues source (templatePieces rules n) := by
  intro lo
  induction n generalizing lo with
  | zero => exact .failure
  | succ n ih =>
    refine .get fun c stage => ?_
    -- a piece starts right at the cursor: blanks belong to the template
    have more {piece : Node} : Carries (Stage source c.offset true [piece])
        (do return piece :: (← templatePieces rules n)) fun v => Stage source lo true (nodes v) := by
      refine .given ?_ fun d part => stage.append part
      exact Continues.bind ih fun rest => .done (by simp)
    split
    next => exact .failure
    next => exact .set (.pure fun d same => same ▸ stage.move (Point.reaches_advance c.toPoint 1))
    next =>
      refine .set_fresh stage (Point.reaches_advance c.toPoint 2) ?_
      exact (good _).bind fun inner => (carries_symbol _).bind fun _ => .bind (.node (by simp)) fun piece => more
    next =>
      split
      next => exact .failure
      next p taken =>
        exact .set_fresh stage (Lexeme.advances_escape? _ _ taken) (.bind (.node (by simp)) fun piece => more)
    next =>
      exact .set_fresh stage (Point.reaches_advance c.toPoint _) (.bind (.node (by simp)) fun piece => more)

theorem reads_template : Reads source (template rules) :=
  .here fun _ => (carries_symbol _).bind fun _ => .look looks_bound fun n =>
    (continues_templatePieces good n).bind fun _ => .node (by simp)

theorem reads_propertyName : Reads source (propertyName rules) := by
  refine .look looks_peek fun cs => ?_
  split
  next =>
    refine .here fun start => (carries_symbol "[").bind fun _ => (good _).bind fun inner => ?_
    exact (carries_symbol "]").bind fun _ => .node (by simp)
  next => exact reads_privateName
  next => exact reads_string
  next => exact reads_string
  next =>
    split
    next => exact reads_number
    next => exact reads_word _
  next => exact .failure

end

theorem reads_memberName : Reads source memberName := by
  refine .look (looks_sees "#") fun hash => ?_
  split
  next => exact reads_privateName
  next => exact reads_word _

theorem carries_dotted {base : Node} (n : Nat) :
    Carries (Stage source lo true [base]) (dotted base n) fun v => Stage source lo true (nodes v) := by
  induction n generalizing base with
  | zero => exact .failure
  | succ n ih =>
    refine (carries_symbol? ".").bind fun dot => ?_
    split
    next => exact (reads_word _).bind fun name => ih.replace fun hi spans => spans.spanning (List.cons_ne_nil _ _)
    next => exact .done rfl

section
variable (good : Rules.Forward source rules)
include good

theorem reads_decorator : Reads source (decorator rules) := by
  refine .here fun start => (carries_symbol "@").bind fun _ => (reads_word _).bind fun base => ?_
  refine .look looks_bound fun n => (carries_dotted n).bind fun callee => .look (looks_sees "(") fun opens => ?_
  split
  next =>
    refine (reads_arguments good).bind fun passed => ?_
    exact .replace (.node (.refl _)) fun hi spans => spans.spanning (List.cons_ne_nil _ _)
  next => exact .node (by simp)

theorem extends_decorators : Extends source (decorators rules) := by
  refine .look looks_bound fun n => .many (.look (looks_sees "@") fun marked => ?_) n
  split
  next => exact (reads_decorator good).offered
  next => exact .none rfl

theorem reads_block : Reads source (block rules) := by
  have statements (n : Nat) :
      Extends source (many (do if ← sees "\x7d" then return none else some <$> rules .statement) n) := by
    refine .many (.look (looks_sees _) fun closes => ?_) n
    split
    next => exact .none rfl
    next => exact (good _).offered
  refine .here fun start => (carries_symbol _).bind fun _ => .look looks_bound fun n => ?_
  exact (statements n).bind fun body => (carries_symbol _).bind fun _ => .node (by simp)

theorem reads_functionBody (goesOn : Bool) : Reads source (functionBody rules goesOn) := by
  refine fun lo => (reads_block good).bind fun body => (carries_hiddenSemicolon goesOn).bind fun _ => ?_
  -- the block starts where it did and ends later
  refine .from_first (.replace (.node (.refl _)) fun hi spans => ?_)
  cases body
  obtain ⟨-, -, high, -, -, inner⟩ := Spans.singleton_iff.1 spans
  exact inner.widen (Nat.le_refl _) high

theorem carries_functionFrom :
    Carries (Stage source start moved []) (functionFrom rules start) fun n => Stage source start true (nodes n) := by
  have named : Extends source functionName := by
    refine .look looks_peek fun cs => ?_
    split
    next => exact Reads.extends fun lo => (reads_word _).bind fun name => .done rfl
    next => exact .none rfl
  refine (carries_keyword "function").bind fun _ => (carries_symbol? "*").bind fun generator => ?_
  refine named.bind fun name => (reads_parameters good).bind fun parameters => ?_
  exact (reads_functionBody good true).bind fun body => .node (by simp)

theorem carries_methodFrom {marks : List Node} (goesOn : Bool) :
    Carries (Stage source start moved marks) (methodFrom rules start marks goesOn)
      fun n => Stage source start true (nodes n) :=
  (reads_parameters good).bind fun parameters => (reads_functionBody good goesOn).bind fun body => .node (by simp)

end

theorem carries_modifier (text : String) (inClass : Bool) :
    Carries (Stage source lo moved ns) (modifier text inClass) fun _ => Stage source lo moved ns := by
  refine .look (looks_seesWord text) fun found => ?_
  split
  next =>
    refine .look (looks_peekAfter text) fun after => ?_
    dsimp only
    split
    next =>
      refine .get fun c stage => ((carries_symbol text).given fun d same => same ▸ stage).bind fun _ => ?_
      refine .look (looks_seesHiddenSemicolon false) fun ends => ?_
      split
      -- the word is a name after all, and is read again as one
      next => exact .set (.pure fun d same => same ▸ stage)
      next => exact .pure fun _ stage => stage.weaken
    next => exact .pure fun _ stage => stage
  next => exact .pure fun _ stage => stage

theorem carries_modifiers (inClass : Bool) :
    Carries (Stage source lo moved ns) (modifiers inClass) fun _ => Stage source lo moved ns := by
  refine (carries_modifier "static" inClass).bind fun static => (carries_modifier "async" inClass).bind fun async => ?_
  refine (carries_modifier "get" inClass).bind fun get => ?_
  have last (set : Bool) : Carries (Stage source lo moved ns) (do
      let star ← if get || set then pure false else symbol? "*"
      return static || async || get || set || star) fun _ => Stage source lo moved ns := by
    split
    next => exact .pure fun _ stage => stage
    next => exact (carries_symbol? "*").bind fun _ => .pure fun _ stage => stage
  split
  next => exact last false
  next => exact (carries_modifier "set" inClass).bind last

section
variable (good : Rules.Forward source rules)
include good

theorem reads_objectMember : Reads source (objectMember rules) := by
  refine .look (looks_sees "...") fun dots => ?_
  split
  next => exact reads_spread good
  refine .here fun start => (extends_decorators good).bind fun marks => (carries_modifiers false).bind fun _ => ?_
  refine (reads_propertyName good).bind fun name => .look (looks_sees "(") fun opens => ?_
  split
  next => exact carries_methodFrom good false
  refine .look (looks_require _) fun _ => (carries_symbol? ":").bind fun colon => ?_
  split
  next => exact (good _).bind fun value => .node (by simp)
  refine .look (looks_require _) fun _ => .look looks_seesEquals fun equals => ?_
  have short (hi : Nat) (spans : Spans source start hi ([] ++ nodes marks ++ nodes name)) :
      Spans source start hi [name.withKind .shorthandProperty] :=
    (spans.sublist (by simp)).withKind
  split
  next => exact .replace ((carries_symbol "=").bind fun _ => (good _).bind fun value => .node (by simp)) short
  next => exact .replace (.done rfl) short

theorem reads_object : Reads source (object rules) :=
  .here fun _ => (carries_symbol _).bind fun _ => .look looks_bound fun n =>
    (extends_slots (reads_objectMember good) n).bind fun _ => .node (by simp)

theorem reads_classMember : Reads source (classMember rules) := by
  refine .look (looks_seesWord "static") fun static => .look (looks_peekAfter "static") fun after => ?_
  split
  next =>
    exact .here fun start => (carries_keyword "static").bind fun _ => (reads_block good).bind fun body => .node (by simp)
  refine .here fun start => (extends_decorators good).bind fun marks => (carries_modifiers true).bind fun _ => ?_
  refine (reads_propertyName good).bind fun name => .look (looks_sees "(") fun opens => ?_
  split
  next =>
    refine (carries_methodFrom good false).bind fun method => (carries_symbol? ";").bind fun _ => ?_
    exact .done rfl
  refine .look looks_seesEquals fun equals => ?_
  split
  next =>
    refine (carries_symbol "=").bind fun _ => (good _).bind fun value => ?_
    exact .bind (.node (by simp)) fun field => (carries_semicolon true).bind fun _ => .done rfl
  next => exact .bind (.node (by simp)) fun field => (carries_semicolon false).bind fun _ => .done rfl

theorem extends_classMembers (n : Nat) : Extends source (classMembers rules n) := by
  intro lo moved
  induction n generalizing lo moved with
  | zero => exact .failure
  | succ n ih =>
    refine (carries_symbol? _).bind fun closes => ?_
    split
    next => exact .done rfl
    refine (carries_symbol? ";").bind fun empty => ?_
    split
    next => exact ih lo moved
    exact (reads_classMember good).extends.bind fun member => Extends.bind ih fun rest => .done (by simp)

theorem carries_classFrom (kind : Kind) {marks : List Node} :
    Carries (Stage source start moved marks) (classFrom rules kind start marks)
      fun n => Stage source start true (nodes n) := by
  have named : Extends source className := by
    refine .look looks_peek fun cs => .look (looks_seesWord _) fun extends' => ?_
    split
    next => exact Reads.extends fun lo => (reads_word _).bind fun name => .done rfl
    next => exact .none rfl
  have inherited : Extends source (classFrom.heritage rules) := by
    refine fun lo moved => carries_clause (fun start resume => ?_) fun start => .done rfl
    refine (good _).bind fun parent => .bind (.node (by simp)) fun whole => .pure fun c part => ?_
    exact (resume _ c part).weaken
  have body : Reads source (classBody rules) :=
    .here fun _ => (carries_symbol _).bind fun _ => .look looks_bound fun n =>
      (extends_classMembers good n).bind fun _ => .node (by simp)
  refine (carries_keyword "class").bind fun _ => named.bind fun name => inherited.bind fun parent => ?_
  exact body.bind fun body => .node (by simp)

end

end ClassLinker.Script.Grammar
