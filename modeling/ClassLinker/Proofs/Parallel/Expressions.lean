import ClassLinker.Proofs.Parallel.Literals

set_option autoImplicit false

namespace ClassLinker.Script.Grammar

open Located Reader

variable {k m : Nat} {rules rules' : Rules}

theorem takes_markupName : Takes k m markupName markupName :=
  takes_lexeme Lexeme.local_markupName? Lexeme.shortens_markupName?

theorem takes_elementName : Takes k m elementName elementName := by
  intro tight
  refine takes_markupName.bind fun first left less => ?_
  refine .ifSymbol (by decide) ?_ ?_
  next =>
    intro left' less'
    exact takes_markupName.bind fun second i lt => .passed (by simp) (by omega)
  next => exact .bound fun n n' enough enough' => (parallel_dotted rfl enough enough').reached less

theorem takes_embedded (inner : Inner k m rules rules') : Takes k m (embedded rules) (embedded rules') := by
  intro tight
  refine .here fun start => ?_
  refine (takes_symbol (by decide)).bind fun _ left less => ?_
  refine .ifSymbol (by decide) (fun left' less' => .node (by omega) rfl rfl) ?_
  refine .ifSees ?_ ?_
  next =>
    refine (takes_spread (inner.mono (by omega))).bind fun value left' less' => ?_
    exact (takes_symbol (by decide)).bind fun _ i lt => .node (by omega) rfl rfl
  next =>
    refine (inner left less _).bind fun value left' less' => ?_
    exact (takes_symbol (by decide)).bind fun _ i lt => .node (by omega) rfl rfl

theorem takes_attributeValue (inner : Inner k (m + 1) rules rules') :
    Takes k m (attributeValue rules) (attributeValue rules') := by
  intro tight
  refine .peek fun cs => ?_
  split
  next => exact takes_embedded (inner.mono (by omega)) tight
  next => exact inner m (by omega) _ tight
  next => exact takes_lexeme Lexeme.local_markupString? Lexeme.shortens_markupString? tight

theorem takes_attributeName : Takes k m attributeName attributeName := by
  intro tight
  refine takes_markupName.bind fun name left less => ?_
  refine .ifSymbol (by decide) ?_ (.passed (by simp) less)
  intro left' less'
  exact takes_markupName.bind fun second i lt => .passed (by simp) (by omega)

theorem takes_tagAttribute (inner : Inner k m rules rules') :
    Takes k m (tagAttribute rules) (tagAttribute rules') := by
  intro tight
  refine .ifSees (takes_embedded inner tight) ?_
  refine .here fun start => ?_
  refine takes_attributeName.bind fun name left less => ?_
  refine .ifSymbol (by decide) ?_ (.node less rfl rfl)
  intro left' less'
  refine (takes_attributeValue (inner.mono (by omega))).bind fun value i lt => ?_
  exact .node (by omega) rfl rfl

theorem tries_tagAttributes (inner : Inner k m rules rules') :
    Tries k m (tagAttributes rules) (tagAttributes rules') := by
  intro tight
  refine .bound fun n n' enough enough' => tries_many ?_ enough enough' tight
  intro left le tight
  refine .peek fun cs => ?_
  split
  next => exact declined (.inr rfl)
  next => exact declined (.inr rfl)
  next => exact (takes_tagAttribute (inner.mono le)).offered (Nat.le_refl _)

theorem takes_closingTag : Takes k m closingTag closingTag := by
  intro tight
  refine .here fun start => ?_
  refine (takes_symbol (by decide)).bind fun _ left less => ?_
  refine .ifSymbol (by decide) (fun left' less' => .node (by omega) rfl rfl) ?_
  refine takes_elementName.bind fun name left' less' => ?_
  exact (takes_symbol (by decide)).bind fun _ i lt => .node (by omega) rfl rfl

theorem parallel_content (inner : Inner k (m + 1) rules rules') {n n' : Nat} (enough : m < n) (enough' : m < n') :
    Parallel k true m (Kept k true m) (content rules n) (content rules' n') := by
  induction n generalizing m n' with
  | zero => omega
  | succ n ih =>
    obtain ⟨n', rfl⟩ : ∃ i, n' = i + 1 := ⟨n' - 1, by omega⟩
    have more {left : Nat} (less : left < m) {piece piece' : Node} (same : piece' = shift k piece) :
        Parallel k true left (Kept k true m) (do return piece :: (← content rules n))
          (do return piece' :: (← content rules' n')) := by
      refine (ih (inner.mono (by omega)) (by omega) (by omega)).thenKept fun pieces left' le => ?_
      exact .kept (by simp [same]) (.inl rfl) (by omega)
    refine .get fun c d meets size => ?_
    rw [meets.same rfl, Lexeme.local_text?]
    cases taken : Lexeme.text? c.toPoint with
    | some p =>
      have less := Lexeme.shortens_text? _ _ taken
      refine .set (meets.move (by omega)) ?_
      exact .nodeThen rfl rfl fun stop => more (by simp only [Cursor.moveTo]; omega) rfl
    | none =>
      refine .peek fun cs => ?_
      split
      next => exact .kept rfl (.inl rfl) (Nat.le_refl m)
      next => exact (inner m (by omega) _).bind fun piece left less => more less rfl
      next => exact (takes_embedded (inner.mono (by omega))).bind fun piece left less => more less rfl
      next =>
        have reference : Takes k m (lexeme .jsxReference Lexeme.reference?) (lexeme .jsxReference Lexeme.reference?) :=
          takes_lexeme Lexeme.local_reference? Lexeme.shortens_reference?
        exact reference.bind fun piece left less => more less rfl

theorem parallel_inside (inner : Inner k (m + 1) rules rules') (start : Nat) {opening opening' : Node}
    (same : opening' = shift k opening) {n : Nat} (less : m < n) :
    Parallel k true m (Passed k n) (element.inside rules start opening)
      (element.inside rules' (start + k) opening') := by
  refine .bound fun n n' enough enough' => ?_
  refine (parallel_content inner enough enough').thenKept fun pieces left le => ?_
  refine takes_closingTag.bind fun closing left' less' => ?_
  exact .node (by omega) rfl (by simp [same])

theorem takes_element (inner : Inner k m rules rules') : Takes k m (element rules) (element rules') := by
  intro tight
  refine .here fun start => ?_
  refine (takes_symbol (by decide)).bind fun _ left less => ?_
  refine .ifSymbol (by decide) ?_ ?_
  next =>
    intro left' less'
    exact .nodeThen rfl rfl fun stop => parallel_inside (inner.mono (by omega)) start (by simp) (by omega)
  refine takes_elementName.bind fun name left' less' => ?_
  refine (tries_tagAttributes (inner.mono (by omega))).bind fun attributes i le => ?_
  refine .ifSymbol (by decide) (fun j lt => .node (by omega) rfl (by simp)) ?_
  refine (takes_symbol (by decide)).bind fun _ j lt => ?_
  exact .nodeThen rfl (by simp) fun stop => parallel_inside (inner.mono (by omega)) start rfl (by omega)

theorem takes_arrowBody (inner : Inner k (m + 1) rules rules') : Takes k m (arrowBody rules) (arrowBody rules') := by
  intro tight
  refine .ifSees ?_ ?_
  next => exact takes_functionBody (inner.mono (by omega)) true tight
  next => exact inner m (by omega) _ tight

theorem takes_arrowFrom (inner : Inner k m rules rules') {start start' : Nat} (place : start' = start + k)
    {parameters parameters' : Node} (same : parameters' = shift k parameters) :
    Takes k m (arrowFrom rules start parameters) (arrowFrom rules' start' parameters') := by
  intro tight
  refine (takes_symbol (by decide)).bind fun _ left less => ?_
  refine (takes_arrowBody (inner.mono less)).bind fun body left' less' => ?_
  exact .node (by omega) place (by simp [same])

theorem takes_parenthesized (inner : Inner k m rules rules') :
    Takes k m (parenthesized rules) (parenthesized rules') := by
  intro tight
  refine .here fun start => ?_
  refine (takes_symbol (by decide)).bind fun _ left less => ?_
  refine .bound fun n n' enough enough' => ?_
  refine (takes_entries (by decide) (inner.mono less) enough enough').bind fun list left' less' => ?_
  refine .require (.nodeThen rfl rfl fun stop => ?_)
  refine .ifSees ?_ ?_
  next =>
    rw [items_shift, Node.patterns?_shift]
    cases Node.patterns? .binding list.items with
    | none => exact .failure
    | some items =>
      exact (takes_arrowFrom (inner.mono (by omega)) rfl (by simp [Node.start, Node.stop])).within (by omega)
  next =>
    rw [items_shift, trailing_shift, all_shift k fun kind => kind ≠ .spreadElement]
    refine .require ?_
    generalize list.items = items
    cases items with
    | nil => exact .failure
    | cons first more =>
      cases more with
      | nil => exact .passed rfl (by omega)
      | cons second rest =>
        refine .passed ?_ (by omega)
        rw [show (shift k second :: List.map (shift k) rest).getLast _ = _ from
          getLast_shift k (second :: rest) (by simp) (by simp)]
        simp [Node.start, Node.stop]

theorem takes_asynchronous (inner : Inner k m rules rules') :
    Takes k m (asynchronous rules) (asynchronous rules') := by
  intro tight
  refine takes_word.bind fun name left less => ?_
  refine .ifSees ?_ (.ifSees ?_ ?_)
  next =>
    refine .here fun start => ?_
    refine (takes_symbol (by decide)).bind fun _ left' less' => ?_
    refine .bound fun n n' enough enough' => ?_
    refine (takes_entries (by decide) (inner.mono (by omega)) enough enough').bind fun list i lt => ?_
    refine .nodeThen rfl rfl fun stop => .ifSees ?_ (.node (by omega) (by simp) (by simp))
    refine .require ?_
    rw [items_shift, Node.patterns?_shift]
    cases Node.patterns? .binding list.items with
    | none => exact .failure
    | some items =>
      exact (takes_arrowFrom (inner.mono (by omega)) (by simp) (by simp [Node.start, Node.stop])).within (by omega)
  next => exact (takes_arrowFrom (inner.mono (by omega)) (by simp) rfl).within (by omega)
  next =>
    refine .seesHiddenSemicolon fun ended => .ite (.passed rfl less) ?_
    refine .ifSeesWord ?_ ?_
    next =>
      rw [start_shift]
      exact (takes_functionFrom (inner.mono (by omega)) _).within (by omega)
    next =>
      refine .peek fun cs => .peek fun cs' => .seesWord fun of_ => .ite ?_ (.passed rfl less)
      refine takes_word.bind fun parameter left' less' => ?_
      exact (takes_arrowFrom (inner.mono (by omega)) (by simp) rfl).within (by omega)

theorem takes_importOperand : Takes k m importOperand importOperand := by
  intro tight
  refine takes_word.bind fun callee left less => ?_
  refine .ifSees (.passed rfl less) ?_
  refine (takes_symbol (by decide)).bind fun _ left' less' => ?_
  refine takes_word.bind fun name i lt => ?_
  rw [start_shift, stop_shift, Nat.add_sub_add_right]
  exact .node (by omega) (by simp) rfl

theorem takes_wordOperand (inner : Inner k m rules rules') : Takes k m (wordOperand rules) (wordOperand rules') := by
  intro tight
  refine .here fun start => .peekWord fun text => ?_
  split
  next => exact takes_word tight
  next =>
    refine .ite (takes_functionFrom inner start tight) ?_
    refine .ite (takes_classFrom inner .classExpression start rfl tight) ?_
    refine .ite (takes_importOperand tight) ?_
    refine .ite (takes_asynchronous inner tight) ?_
    refine takes_word.bind fun name left less => ?_
    exact .ifSees ((takes_arrowFrom (inner.mono (by omega)) rfl rfl).within (by omega)) (.passed rfl less)

theorem takes_privateOperand : Takes k m privateOperand privateOperand := by
  intro tight
  refine takes_privateName.bind fun name left less => ?_
  exact .seesWord fun _ => .require (.passed rfl less)

theorem takes_simpleOperand (inner : Inner k m rules rules')
    (element : Takes k m (rules .element) (rules' .element)) :
    Takes k m (simpleOperand rules) (simpleOperand rules') := by
  intro tight
  refine .peek fun cs => ?_
  split
  next => exact .failure
  next => exact takes_parenthesized inner tight
  next => exact takes_array inner tight
  next => exact takes_object inner tight
  next => exact takes_string tight
  next => exact takes_string tight
  next => exact takes_template inner tight
  next => exact takes_lexeme Lexeme.local_regex? Lexeme.shortens_regex? tight
  next => exact element tight
  next => exact takes_privateOperand tight
  next =>
    refine .here fun start => ?_
    refine (tries_decorators inner).bind fun marks left le => ?_
    exact (takes_classFrom (inner.mono le) .classExpression start rfl).within le
  next => exact .ite (takes_number tight) (takes_wordOperand inner tight)

theorem takes_subscript (inner : Inner k m rules rules') {base base' : Node} (same : base' = shift k base) :
    Takes k m (subscript rules base) (subscript rules' base') := by
  intro tight
  refine (takes_symbol (by decide)).bind fun _ left less => ?_
  refine (inner left less _).bind fun index left' less' => ?_
  refine (takes_symbol (by decide)).bind fun _ i lt => ?_
  exact .node (by omega) (by simp [same]) (by simp [same])

theorem parallel_attached (inner : Inner k m rules rules') (calls : Bool) {base base' : Node}
    (same : base' = shift k base) {n n' : Nat} (enough : m < n) (enough' : m < n') :
    Parallel k true m (Kept k true m) (attached rules calls base n) (attached rules' calls base' n') := by
  induction n generalizing m n' base base' with
  | zero => omega
  | succ n ih =>
    obtain ⟨n', rfl⟩ : ∃ i, n' = i + 1 := ⟨n' - 1, by omega⟩
    have done : Parallel k true m (Kept k true m) (pure base) (pure base') :=
      .kept same (.inl rfl) (Nat.le_refl m)
    have more {left : Nat} (less : left < m) {next next' : Node} (same : next' = shift k next) :
        Parallel k true left (Kept k true m) (attached rules calls next n) (attached rules' calls next' n') :=
      (ih (inner.mono (by omega)) same (by omega) (by omega)).widen (by omega)
    have called {left : Nat} (le : left ≤ m) :
        Parallel k true left (Kept k true m)
          (do let arguments ← arguments rules
              attached rules calls (.spanning .callExpression base arguments [base, arguments]) n)
          (do let arguments ← arguments rules'
              attached rules' calls (.spanning .callExpression base' arguments [base', arguments]) n') :=
      (takes_arguments (inner.mono le)).bind fun arguments i lt => more (by omega) (by simp [same])
    have named {left : Nat} (le : left ≤ m) :
        Parallel k true left (Kept k true m)
          (do let name ← memberName
              attached rules calls (.spanning .memberExpression base name [base, name]) n)
          (do let name ← memberName
              attached rules' calls (.spanning .memberExpression base' name [base', name]) n') :=
      takes_memberName.bind fun name i lt => more (by omega) (by simp [same])
    refine .peek fun cs => ?_
    split
    next =>
      refine .ite done ?_
      refine (takes_symbol (by decide)).bind fun _ left less => ?_
      refine .ifSees (called (by omega)) (.ifSees ?_ (named (by omega)))
      exact (takes_subscript (inner.mono (by omega)) same).bind fun next i lt => more (by omega) rfl
    next => exact (takes_symbol (by decide)).bind fun _ left less => named (by omega)
    next => exact (takes_subscript inner same).bind fun next left less => more less rfl
    next => exact (takes_template inner).bind fun text left less => more less (by simp [same])
    next => exact .ite (called (Nat.le_refl m)) done
    next => exact done

theorem parallel_constructed (inner : Inner k m rules rules') (start : Nat) {base base' : Node}
    (same : base' = shift k base) {n : Nat} (less : m < n) :
    Parallel k true m (Passed k n) (constructed rules start base) (constructed rules' (start + k) base') := by
  refine .bound fun n n' enough enough' => ?_
  refine (parallel_attached inner false same enough enough').thenKept fun callee left le => ?_
  refine .ifSees ?_ (.node (by omega) rfl rfl)
  exact (takes_arguments (inner.mono le)).bind fun arguments left' less' => .node (by omega) rfl rfl

theorem takes_construction (inner : Inner k m rules rules') {n n' : Nat} (enough : m < n) (enough' : m < n') :
    Takes k m (construction rules n) (construction rules' n') := by
  intro tight
  induction n generalizing m n' tight with
  | zero => omega
  | succ n ih =>
    obtain ⟨n', rfl⟩ : ∃ i, n' = i + 1 := ⟨n' - 1, by omega⟩
    refine .here fun start => ?_
    refine (takes_keyword (by decide)).bind fun _ left less => ?_
    refine .ifSymbol (by decide) ?_ (.ifSeesWord ?_ ?_)
    next =>
      intro left' less'
      exact (takes_keyword (by decide)).bind fun _ i lt => .node (by omega) rfl rfl
    next =>
      have base : Takes k left (construction rules n) (construction rules' n') :=
        ih (inner.mono (by omega)) (by omega) (by omega)
      exact base.bind fun base i lt => parallel_constructed (inner.mono (by omega)) start rfl (by omega)
    next =>
      have base := takes_simpleOperand (inner.mono (by omega)) (inner left less .element)
      exact base.bind fun base i lt => parallel_constructed (inner.mono (by omega)) start rfl (by omega)

section

-- An operand may open with markup, of which nothing has been read before.
variable (inner : Inner k m rules rules') (element : Takes k m (rules .element) (rules' .element))

include inner element

theorem takes_baseOperand : Takes k m (baseOperand rules) (baseOperand rules') := by
  intro tight
  refine .ifSeesWord ?_ (takes_simpleOperand inner element tight)
  exact .bound fun n n' enough enough' => takes_construction inner enough enough' tight

theorem takes_accessOperand : Takes k m (accessOperand rules) (accessOperand rules') := by
  intro tight
  refine (takes_baseOperand inner element).bind fun base left less => ?_
  refine .bound fun n n' enough enough' => ?_
  refine (parallel_attached (inner.mono (by omega)) true rfl enough enough').thenKept fun whole i le => ?_
  refine .sees fun up => .sees fun down => .ite ?_ (.passed rfl (by omega))
  refine .seesHiddenSemicolon fun ended => .ite (.passed rfl (by omega)) ?_
  refine .ifSees ?_ ?_
  next => exact (takes_symbol (by decide)).bind fun _ j lt => .node (by omega) (by simp) rfl
  next => exact (takes_symbol (by decide)).bind fun _ j lt => .node (by omega) (by simp) rfl

end

theorem target?_shift (n : Node) :
    (if (shift k n).kind = .parenthesizedExpression then some (shift k n) else (shift k n).target?) =
      (if n.kind = .parenthesizedExpression then some n else n.target?).map (shift k) := by
  rw [kind_shift, Node.target?, Node.pattern?_shift]
  split <;> rfl

theorem visible_assignment {cs : List Char} {text : String} (found : assignmentAt cs = some text) :
    text.toList ≠ [] := by
  have all : ∀ text ∈ assignments, text.toList ≠ [] := by decide
  exact all text (List.mem_of_find?_eq_some found)

theorem parallel_assignedTo (inner : Inner k m rules rules') (left : Node) :
    Parallel k true m (Kept k true m) (assignedTo rules left) (assignedTo rules' (shift k left)) := by
  refine .ifEquals ?_ ?_
  next =>
    refine (takes_symbol (by decide)).bind fun _ i less => ?_
    dsimp only
    rw [target?_shift]
    cases (if left.kind = .parenthesizedExpression then some left else left.target?) with
    | none => exact .failure
    | some target =>
      refine (inner i less _).bind fun value j lt => ?_
      exact .nodeKept (by omega) (by simp) rfl
  next =>
    refine .peek fun cs => ?_
    cases found : assignmentAt cs with
    | none => exact .kept rfl (.inl rfl) (Nat.le_refl m)
    | some text =>
      rw [kind_shift]
      refine .require ?_
      refine (takes_symbol (visible_assignment found)).bind fun _ i less => ?_
      refine (inner i less _).bind fun value j lt => ?_
      exact .nodeKept (by omega) (by simp) rfl

theorem takes_yielded (inner : Inner k m rules rules') : Takes k m (yielded rules) (yielded rules') := by
  intro tight
  refine .here fun start => ?_
  refine (takes_keyword (by decide)).bind fun _ left less => ?_
  refine .ifSymbol (by decide) ?_ ?_
  next =>
    intro left' less'
    exact (inner left' (by omega) _).bind fun value i lt => .node (by omega) rfl rfl
  refine .seesHiddenSemicolon fun ended => .ite (.node less rfl rfl) ?_
  refine .peek fun cs => .ite ?_ (.node less rfl rfl)
  exact (inner left less _).bind fun value i lt => .node (by omega) rfl rfl

theorem visible_prefixWord {text : List Char} {spelling : String}
    (found : prefixWords.find? (fun spelling => spelling.toList = text) = some spelling) : spelling.toList ≠ [] := by
  have all : ∀ spelling ∈ prefixWords, spelling.toList ≠ [] := by decide
  exact all spelling (List.mem_of_find?_eq_some found)

theorem takes_operand (inner : Inner k m rules rules') (element : Takes k m (rules .element) (rules' .element)) :
    Takes k m (operand rules) (operand rules') := by
  intro tight
  refine .here fun start => .peekWord fun text => ?_
  cases found : prefixWords.find? fun spelling => spelling.toList = text with
  | some spelling =>
    refine (takes_symbol (visible_prefixWord found)).bind fun _ left less => ?_
    exact (inner left less _).bind fun value i lt => .node (by omega) rfl rfl
  | none =>
    refine .ite (takes_yielded inner tight) ?_
    -- the signs are all tried before any is acted on
    refine (tried_symbol (by decide)).bind fun up up' t i first => ?_
    refine (tried_symbol (by decide)).bind fun down down' t' i' second => ?_
    have signed {left : Nat} (less : left < m) {kind : Kind} :
        Parallel k true left (Passed k m) (do node kind start [← rules (.expression unaryLevel)])
          (do node kind (start + k) [← rules' (.expression unaryLevel)]) :=
      (inner left less _).bind fun value i lt => .node (by omega) rfl rfl
    obtain ⟨same, ⟨yes, rfl, less⟩ | ⟨no, rfl, rfl⟩⟩ := first.or second
    next => rw [same, yes]; exact signed less
    rw [same, no]
    refine (tried_symbol (by decide)).bind fun not not' t i first => ?_
    refine (tried_symbol (by decide)).bind fun tilde tilde' t i second => ?_
    refine (tried_symbol (by decide)).bind fun plus plus' t i third => ?_
    refine (tried_symbol (by decide)).bind fun minus minus' t i fourth => ?_
    obtain ⟨same, ⟨yes, rfl, less⟩ | ⟨no, rfl, rfl⟩⟩ := ((first.or second).or third).or fourth
    next => rw [same, yes]; exact signed less
    rw [same, no]
    refine (takes_accessOperand inner element).bind fun operand left less => ?_
    exact (parallel_assignedTo (inner.mono (by omega)) operand).reached less

theorem visible_operator {cs : List Char} {op : Operator} (found : operatorAt cs = some op) :
    op.spelling.toList ≠ [] := by
  have all : ∀ op ∈ operators ++ wordOperators, op.spelling.toList ≠ [] := by decide
  refine all op ?_
  unfold operatorAt at found
  split at found
  next => cases found
  next => cases found
  next =>
    dsimp only at found
    split at found
    next => exact List.mem_append_left _ (List.mem_of_find?_eq_some found)
    next => exact List.mem_append_right _ (List.mem_of_find?_eq_some found)

theorem parallel_operated (inner : Inner k m rules rules') (level : Nat) {left left' : Node}
    (same : left' = shift k left) {n n' : Nat} (enough : m < n) (enough' : m < n') :
    Parallel k true m (Kept k true m) (operated rules level left n) (operated rules' level left' n') := by
  induction n generalizing m n' left left' with
  | zero => omega
  | succ n ih =>
    obtain ⟨n', rfl⟩ : ∃ i, n' = i + 1 := ⟨n' - 1, by omega⟩
    have done : Parallel k true m (Kept k true m) (pure left) (pure left') :=
      .kept same (.inl rfl) (Nat.le_refl m)
    have more {i : Nat} (less : i < m) {next next' : Node} (same : next' = shift k next) :
        Parallel k true i (Kept k true m) (operated rules level next n) (operated rules' level next' n') :=
      (ih (inner.mono (by omega)) same (by omega) (by omega)).widen (by omega)
    refine .peek fun cs => .ite (.ite done ?_) ?_
    next =>
      refine (takes_symbol (by decide)).bind fun _ i less => ?_
      refine (inner i less _).bind fun yes i' less' => ?_
      refine (takes_symbol (by decide)).bind fun _ j lt => ?_
      refine (inner j (by omega) _).bind fun no j' lt' => ?_
      exact more (by omega) (by simp [same])
    next =>
      cases found : operatorAt cs with
      | none => exact done
      | some op =>
        refine .ite done ?_
        refine (takes_symbol (visible_operator found)).bind fun _ i less => ?_
        refine (inner i less _).bind fun right i' less' => ?_
        exact more (by omega) (by simp [same])

theorem takes_expression (inner : Inner k m rules rules') (element : Takes k m (rules .element) (rules' .element))
    (level : Nat) : Takes k m (expression rules level) (expression rules' level) := by
  intro tight
  refine (takes_operand inner element).bind fun first left less => ?_
  refine .bound fun n n' enough enough' => ?_
  exact (parallel_operated (inner.mono (by omega)) level rfl enough enough').reached less

theorem tries_moreExpressions (inner : Inner k m rules rules') :
    Tries k m (moreExpressions rules) (moreExpressions rules') := by
  intro tight
  refine .bound fun n n' enough enough' => tries_many ?_ enough enough' tight
  intro left le tight
  refine .ifSymbol (by decide) ?_ (declined (.inr rfl))
  intro left' less
  exact (inner left' (by omega) _).offered (by omega)

theorem takes_sequence (inner : Inner k m rules rules')
    (expression : Takes k m (rules (.expression 0)) (rules' (.expression 0))) :
    Takes k m (sequence rules) (sequence rules') := by
  intro tight
  refine expression.bind fun first left less => ?_
  refine (tries_moreExpressions (inner.mono (by omega))).bind fun rest left' le => ?_
  cases rest with
  | nil => exact .passed rfl (by omega)
  | cons second rest => exact .node (by omega) (by simp) rfl

end ClassLinker.Script.Grammar
