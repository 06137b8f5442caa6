import ClassLinker.Proofs.Placement.Expressions

set_option autoImplicit false

namespace ClassLinker.Script

namespace Grammar

open HasNodes (nodes)
open Reader

variable {source : List Char} {rules : Rules} {lo start : Nat} {moved : Bool}

theorem looks_seesLexicalDeclaration : Looks seesLexicalDeclaration := by
  refine (looks_seesWord "let").bind fun found => ?_
  split
  next => exact (looks_peekAfter "let").bind fun _ => .pure _
  next => exact .pure _

theorem looks_seesMembership : Looks seesMembership :=
  (looks_seesWord "in").bind fun _ => (looks_seesWord "of").bind fun _ => .pure _

theorem looks_seesLabel : Looks seesLabel := by
  refine looks_peekWord.bind fun text => ?_
  dsimp only
  split
  next => exact .pure _
  next => exact (looks_peekAfter _).bind fun _ => .pure _

theorem reads_exportedName : Reads source exportedName := by
  refine .look looks_peek fun cs => ?_
  split
  next => exact reads_string
  next => exact reads_string
  next => exact reads_word _

theorem reads_fromClause : Reads source fromClause :=
  fun _ => (carries_keyword "from").bind fun _ => reads_string.carries

theorem reads_specifier (kind : Kind) : Reads source (specifier kind) := by
  refine fun lo => reads_exportedName.bind fun name => (carries_keyword? "as").bind fun renamed => ?_
  split
  next => exact reads_exportedName.bind fun other => .node_first rfl (.refl _)
  next => exact .node_first rfl (.refl _)

theorem reads_specifiers (kind entry : Kind) : Reads source (specifiers kind entry) := by
  refine .here fun start => (carries_symbol _).bind fun _ => .look looks_bound fun n => ?_
  exact (extends_slots (reads_specifier entry) n).bind fun list => .look (looks_require _) fun _ => .node (.refl _)

theorem reads_namespaceImport (kind : Kind) : Reads source (namespaceImport kind) :=
  .here fun _ => (carries_symbol "*").bind fun _ => (carries_keyword "as").bind fun _ =>
    reads_exportedName.bind fun _ => .node (.refl _)

theorem reads_importClause : Reads source importClause := by
  have named : Reads source importedNames := by
    refine .look (looks_sees "*") fun star => ?_
    split
    next => exact reads_namespaceImport _
    next => exact reads_specifiers _ _
  refine .here fun start => .look (looks_sees "*") fun star => .look (looks_sees _) fun opens => ?_
  split
  next => exact named.bind fun names => .node (.refl _)
  refine (reads_word _).bind fun name => (carries_symbol? ",").bind fun comma => ?_
  split
  next => exact named.bind fun names => .node (.refl _)
  next => exact .node (.refl _)

section
variable (good : Rules.Forward source rules)
include good

theorem reads_bindingTarget : Reads source (bindingTarget rules) := by
  have again {lo : Nat} {literal : Node} : Carries (Stage source lo true [literal]) (bindingTarget.pattern literal)
      fun n => Stage source lo true (nodes n) := by
    unfold bindingTarget.pattern
    split
    next target read => exact .replace (.done rfl) fun hi spans => (Spans.pattern .target literal read spans).1
    next => exact .failure
  refine .look looks_peek fun cs => ?_
  split
  next => exact fun lo => (reads_array good).bind fun literal => again
  next => exact fun lo => (reads_object good).bind fun literal => again
  next => exact reads_word _

theorem reads_declarator : Reads source (declarator rules) := by
  refine fun lo => (reads_bindingTarget good).bind fun target => .look looks_seesEquals fun equals => ?_
  split
  next => exact (carries_symbol "=").bind fun _ => (good _).bind fun value => .node_first rfl (.refl _)
  next =>
    refine .replace (.done rfl) fun hi spans => ?_
    obtain ⟨kind, s, e, cs⟩ := target
    obtain ⟨low, width, high, starts, stops, inner⟩ := Spans.singleton_iff.1 spans
    refine Spans.singleton_iff.2 ⟨low, width, high, starts, stops, Spans.singleton_iff.2 ?_⟩
    exact ⟨Nat.le_refl _, width, Nat.le_refl _, starts, stops, inner⟩

theorem reads_declaration : Reads source (declaration rules) := by
  have declared : Reads source (declarators rules) := by
    have others (n : Nat) :
        Extends source (many (do if ← symbol? "," then some <$> declarator rules else return none) n) := by
      refine .many (fun lo moved => (carries_symbol? ",").bind fun comma => ?_) n
      split
      next => exact (reads_declarator good).offered lo moved
      next => exact .done rfl
    refine fun lo => (reads_declarator good).bind fun first => .look looks_bound fun n => ?_
    exact (others n).bind fun rest => .done (by simp)
  refine .here fun start => .look (looks_seesWord "var") fun var => (reads_word _).bind fun word => ?_
  exact declared.bind fun all => (carries_semicolon _).bind fun _ => .node (by simp)

theorem reads_functionDeclaration : Reads source (functionDeclaration rules) := by
  refine .here fun start => (carries_keyword? "async").bind fun _ => (carries_functionFrom good).bind fun whole => ?_
  exact .replace (.done rfl) fun hi spans => spans.withKind

theorem extends_declaration? : Extends source (declaration? rules) := by
  refine .look (looks_seesWord "var") fun var => .look (looks_seesWord "const") fun const => ?_
  refine .look looks_seesLexicalDeclaration fun lexical => ?_
  split
  next => exact (reads_declaration good).offered
  refine .look looks_ahead fun function => ?_
  split
  next => exact (reads_functionDeclaration good).offered
  refine .look looks_ahead fun class' => ?_
  split
  next =>
    have whole : Reads source (here >>= fun start => classFrom rules .classDeclaration start []) :=
      .here fun start => carries_classFrom good _
    exact whole.offered
  next => exact .none rfl

theorem reads_importStatement : Reads source (importStatement rules) := by
  have parts : Reads source importParts := by
    refine .look (looks_sees "'") fun single => .look (looks_sees _) fun double => ?_
    split
    next => exact fun lo => reads_string.bind fun text => .done rfl
    next => exact fun lo => reads_importClause.bind fun clause => reads_fromClause.bind fun origin => .done rfl
  have extra : Extends source (importAttribute rules) := by
    refine fun lo moved => carries_clause (fun start resume => ?_) fun start => .done rfl
    refine (reads_object good).bind fun object => .bind (.node (.refl _)) fun whole => .pure fun c part => ?_
    exact (resume _ c part).weaken
  refine .here fun start => (carries_keyword "import").bind fun _ => parts.bind fun names => ?_
  exact extra.bind fun pairs => (carries_semicolon false).bind fun _ => .node (by simp)

theorem carries_exportStatement {marks : List Node} : Carries (Stage source start moved marks)
    (exportStatement rules start marks) fun n => Stage source start true (nodes n) := by
  refine (carries_keyword "export").bind fun _ => (carries_keyword? "default").bind fun default => ?_
  split
  next =>
    refine (extends_declaration? good).bind fun inner => ?_
    split
    next => exact .node (by simp)
    next => exact (good _).bind fun value => (carries_semicolon true).bind fun _ => .node (by simp)
  refine .look (looks_sees _) fun opens => ?_
  split
  next =>
    have origin : Extends source exportOrigin := by
      refine .look (looks_seesWord "from") fun found => ?_
      split
      next => exact Reads.extends fun lo => reads_fromClause.bind fun text => .done rfl
      next => exact .none rfl
    refine .look (looks_require _) fun _ => (reads_specifiers _ _).bind fun clause => origin.bind fun text => ?_
    exact (carries_semicolon false).bind fun _ => .node (by simp)
  refine .look (looks_sees "*") fun star => ?_
  split
  next =>
    have all : Extends source exportedAll := by
      refine .look (looks_peekAfter "*") fun after => ?_
      split
      next => exact Reads.extends fun lo => (reads_namespaceImport _).bind fun name => .done rfl
      next => exact fun lo moved => (carries_symbol "*").bind fun _ => .pure fun _ stage => stage.weaken
    refine .look (looks_require _) fun _ => all.bind fun names => reads_fromClause.bind fun origin => ?_
    exact (carries_semicolon false).bind fun _ => .node (by simp)
  refine (extends_declaration? good).bind fun inner => ?_
  split
  next => exact .node (by simp)
  next => exact .failure

theorem reads_decorated : Reads source (decorated rules) := by
  refine .here fun start => (extends_decorators good).bind fun marks => .look (looks_seesWord "export") fun found => ?_
  split
  next => exact carries_exportStatement good
  refine .look looks_ahead fun class' => ?_
  split
  next => exact carries_classFrom good _
  next => exact (carries_classFrom good _).bind fun inner => (carries_semicolon true).bind fun _ => .node (.refl _)

theorem reads_condition : Reads source (condition rules) :=
  .here fun _ => (carries_symbol "(").bind fun _ => (good _).bind fun _ => (carries_symbol ")").bind fun _ =>
    .node (.refl _)

theorem reads_ifStatement : Reads source (ifStatement rules) := by
  refine .here fun start => (carries_keyword "if").bind fun _ => (reads_condition good).bind fun test => ?_
  refine (good _).bind fun yes => carries_clause (fun between resume => ?_) fun _ => .node (.refl _)
  refine (good _).bind fun no => .bind (.node (.refl _)) fun otherwise => ?_
  exact .given (.node (.refl _)) fun c part => resume _ c part

theorem reads_branch : Reads source (branch rules) := by
  have body : Extends source (branchBody rules) := by
    refine .look looks_bound fun n => .many (.look (looks_sees _) fun closes => ?_) n
    refine .look (looks_seesWord "case") fun case' => .look (looks_seesWord "default") fun default => ?_
    split
    next => exact .none rfl
    next => exact (good _).offered
  refine .here fun start => (carries_keyword? "default").bind fun default => ?_
  split
  next => exact (carries_symbol ":").bind fun _ => body.bind fun statements => .node (.refl _)
  next =>
    refine (carries_keyword "case").bind fun _ => (good _).bind fun value => (carries_symbol ":").bind fun _ => ?_
    exact body.bind fun statements => .node (by simp)

theorem reads_switchStatement : Reads source (switchStatement rules) := by
  have branches (n : Nat) :
      Extends source (many (do if ← sees "\x7d" then return none else some <$> branch rules) n) := by
    refine .many (.look (looks_sees _) fun closes => ?_) n
    split
    next => exact .none rfl
    next => exact (reads_branch good).offered
  refine .here fun start => (carries_keyword "switch").bind fun _ => (reads_condition good).bind fun value => ?_
  refine .here fun opening resume => (carries_symbol _).bind fun _ => .look looks_bound fun n => ?_
  refine (branches n).bind fun parts => (carries_symbol _).bind fun _ => .bind (.node (.refl _)) fun body => ?_
  exact .given (.node (.refl _)) fun c part => resume _ c part

theorem reads_memberHead : Reads source (memberHead rules) := by
  have target : Reads source (memberTarget rules) := by
    refine fun lo => (carries_keyword? "var").bind fun var => ?_
    split
    next =>
      refine (reads_bindingTarget good).bind fun target => .look looks_seesEquals fun equals => ?_
      split
      next => exact (carries_symbol "=").bind fun _ => (good _).bind fun value => .done rfl
      next => exact .done rfl
    refine .look (looks_seesWord "const") fun const => .look looks_seesLexicalDeclaration fun lexical => ?_
    split
    next =>
      refine (reads_word _).bind fun word => (reads_bindingTarget good).bind fun target => ?_
      exact .select (.done rfl) (by simp)
    refine (reads_accessOperand good).bind fun left => ?_
    dsimp only
    split
    next target read => exact .replace (.done rfl) fun hi spans => spans_target read spans
    next => exact .failure
  refine fun lo => (carries_symbol "(").bind fun _ => target.bind fun target => .look looks_seesMembership fun _ => ?_
  refine .look (looks_require _) fun _ => (reads_word _).bind fun word => (good _).bind fun object => ?_
  exact (carries_symbol ")").bind fun _ => .select (.done rfl) (by simp)

omit good in
theorem reads_emptyStatement : Reads source emptyStatement :=
  .here fun _ => (carries_symbol ";").bind fun _ => .node (.refl _)

theorem reads_countingHead : Reads source (countingHead rules) := by
  have clause : Reads source (countingClause rules) := by
    refine .look (looks_sees ";") fun empty => ?_
    split
    next => exact reads_emptyStatement
    next => exact fun lo => (good _).bind fun inner => (carries_symbol ";").bind fun _ => .done rfl
  have first : Reads source (countingStart rules) := by
    refine .look (looks_seesWord "var") fun var => .look (looks_seesWord "const") fun const => ?_
    refine .look looks_seesLexicalDeclaration fun lexical => ?_
    split
    next => exact reads_declaration good
    next => exact clause
  refine fun lo => (carries_symbol "(").bind fun _ => first.bind fun first => clause.bind fun test => ?_
  refine (carries_symbol? ")").bind fun closes => ?_
  split
  next => exact .done rfl
  next => exact (good _).bind fun step => (carries_symbol ")").bind fun _ => .done rfl

theorem reads_forStatement : Reads source (forStatement rules) := by
  refine .here fun start => (carries_keyword "for").bind fun _ => (carries_keyword? "await").bind fun await => ?_
  split
  next => exact (reads_memberHead good).bind fun head => (good _).bind fun body => .node (.refl _)
  have either : Reads source ((do pure (Kind.forInStatement, ← memberHead rules)) <|>
      (do pure (Kind.forStatement, ← countingHead rules))) := by
    refine .orElse (fun lo => ?_) fun lo => ?_
    · exact (reads_memberHead good).bind fun head => .done rfl
    · exact (reads_countingHead good).bind fun head => .done rfl
  exact either.bind fun head => (good _).bind fun body => .node (.refl _)

theorem reads_doStatement : Reads source (doStatement rules) := by
  refine .here fun start => (carries_keyword "do").bind fun _ => (good _).bind fun body => ?_
  refine (carries_keyword "while").bind fun _ => (reads_condition good).bind fun test => ?_
  refine .bind (.node (.refl _)) fun whole => (carries_hiddenSemicolon false).bind fun ends => ?_
  split
  next => exact .done rfl
  next => exact (carries_symbol? ";").bind fun _ => .done rfl

theorem reads_tryStatement : Reads source (tryStatement rules) := by
  have caught : Extends source (tryStatement.caught rules) := by
    refine fun lo moved => (carries_symbol? "(").bind fun opens => ?_
    split
    next =>
      refine (reads_bindingTarget good).extends.bind fun target => (carries_symbol ")").bind fun _ => ?_
      exact .pure fun _ stage => stage.weaken
    next => exact .done rfl
  have handled : Extends source (tryStatement.handled rules) := by
    refine fun lo moved => carries_clause (fun start resume => ?_) fun start => .done rfl
    refine caught.bind fun parameter => (reads_block good).bind fun body => .bind (.node (.refl _)) fun whole => ?_
    exact .pure fun c part => (resume _ c part).weaken
  have finished : Extends source (tryStatement.finished rules) := by
    refine fun lo moved => carries_clause (fun start resume => ?_) fun start => .done rfl
    refine (reads_block good).bind fun body => .bind (.node (.refl _)) fun whole => ?_
    exact .pure fun c part => (resume _ c part).weaken
  refine .here fun start => (carries_keyword "try").bind fun _ => (reads_block good).bind fun body => ?_
  exact handled.bind fun handler => finished.bind fun last => .node (by simp)

omit good in
theorem reads_jump (text : String) (kind : Kind) : Reads source (jump text kind) := by
  refine .here fun start => (carries_keyword text).bind fun _ => (carries_hiddenSemicolon false).bind fun ends => ?_
  split
  next => exact .node (.refl _)
  refine .look looks_peek fun cs => ?_
  split
  next => exact (reads_word _).bind fun label => (carries_semicolon false).bind fun _ => .node (.refl _)
  next => exact (carries_symbol ";").bind fun _ => .node (.refl _)

theorem reads_returnStatement : Reads source (returnStatement rules) := by
  refine .here fun start => (carries_keyword "return").bind fun _ => (carries_hiddenSemicolon false).bind fun ends => ?_
  split
  next => exact .node (.refl _)
  refine (carries_symbol? ";").bind fun empty => ?_
  split
  next => exact .node (.refl _)
  next => exact (good _).bind fun value => (carries_semicolon true).bind fun _ => .node (.refl _)

theorem reads_throwStatement : Reads source (throwStatement rules) :=
  .here fun _ => (carries_keyword "throw").bind fun _ => (good _).bind fun _ => (carries_semicolon true).bind fun _ =>
    .node (.refl _)

theorem reads_guarded (text : String) (kind : Kind) : Reads source (guarded rules text kind) :=
  .here fun _ => (carries_keyword text).bind fun _ => (reads_condition good).bind fun _ => (good _).bind fun _ =>
    .node (.refl _)

theorem reads_expressionStatement : Reads source (expressionStatement rules) :=
  fun _ => (good _).bind fun _ => (carries_semicolon true).bind fun _ => .node_first rfl (.refl _)

theorem reads_labeledStatement : Reads source (labeledStatement rules) :=
  fun _ => (reads_word _).bind fun _ => (carries_symbol ":").bind fun _ => (good _).bind fun _ =>
    .node_first rfl (.refl _)

theorem reads_bracedStatement : Reads source (bracedStatement rules) := by
  refine fun lo => .get fun c stage => .orElse ?_ ?_
  · exact (reads_block good lo).given fun d same => same ▸ stage
  -- the flag that changes tells nothing about places
  refine .look (looks_require _) fun _ => .set ?_
  refine Carries.given ?_ fun d same => (same ▸ ⟨stage.reached, stage.mark, stage.ahead, stage.spans, stage.past⟩ :
    Stage source lo false [] d)
  refine (reads_expressionStatement good).bind fun whole d v d' after ran => ?_
  cases ran
  exact ⟨after.reached, after.mark, after.ahead, after.spans, after.past⟩

omit good in
theorem reads_debuggerStatement : Reads source debuggerStatement :=
  .here fun _ => (carries_keyword "debugger").bind fun _ => (carries_semicolon false).bind fun _ => .node (.refl _)

theorem reads_reserved {text : String} {r : Reader Node} (found : reserved? rules text = some r) :
    Reads source r := by
  unfold reserved? at found
  split at found
  next => cases found; exact reads_ifStatement good
  next => cases found; exact reads_switchStatement good
  next => cases found; exact reads_forStatement good
  next => cases found; exact reads_guarded good _ _
  next => cases found; exact reads_guarded good _ _
  next => cases found; exact reads_doStatement good
  next => cases found; exact reads_tryStatement good
  next => cases found; exact reads_jump _ _
  next => cases found; exact reads_jump _ _
  next => cases found; exact reads_returnStatement good
  next => cases found; exact reads_throwStatement good
  next => cases found; exact reads_debuggerStatement
  next => cases found

theorem reads_wordStatement : Reads source (wordStatement rules) := by
  refine .look looks_peekWord fun text => ?_
  split
  next r found => exact reads_reserved good found
  refine fun lo => (extends_declaration? good).bind fun inner => ?_
  split
  next => exact .pure fun c stage => stage.nil_or_moved.resolve_left (List.cons_ne_nil _ _)
  refine .look looks_seesLabel fun label => ?_
  split
  next => exact (reads_labeledStatement good).carries
  refine .look (looks_seesWord "export") fun exports => ?_
  split
  next =>
    have whole : Reads source (here >>= fun start => exportStatement rules start []) :=
      .here fun start => carries_exportStatement good
    exact whole.carries
  refine .look (looks_seesWord "import") fun imports => ?_
  split
  next =>
    refine .look (looks_peekAfter "import") fun after => ?_
    split
    next => exact (reads_expressionStatement good).carries
    next => exact (reads_expressionStatement good).carries
    next => exact (reads_importStatement good).carries
  next => exact (reads_expressionStatement good).carries

theorem reads_statement : Reads source (statement rules) := by
  refine .look looks_peek fun cs => ?_
  split
  next => exact reads_bracedStatement good
  next => exact reads_emptyStatement
  next => exact reads_decorated good
  next =>
    split
    next => exact reads_wordStatement good
    next => exact reads_expressionStatement good

end

end Grammar

open Grammar Reader

theorem forward_rulesTo (source : List Char) (n : Nat) : Rules.Forward source (rulesTo n) := by
  induction n with
  | zero => exact fun _ => .failure
  | succ n ih =>
    intro goal
    cases goal with
    | statement => exact reads_statement ih
    | sequence => exact reads_sequence ih
    | expression level => exact reads_expression ih level
    | element => exact reads_element ih

theorem carries_program {source : List Char} {rules : Rules} (good : Rules.Forward source rules) :
    Carries (Stage source 0 true []) (program rules) fun root => Stage source 0 true [root] := by
  have line : Extends source hashBang := by
    refine .look (looks_sees "#!") fun found => ?_
    have advances : Lexeme.Advances fun p => some (p.advanceWhile (· ≠ '\n')) := by
      intro p q taken
      cases taken
      exact Point.reaches_advanceWhile p _
    split
    next => exact Reads.extends fun lo => (reads_lexeme .hashBang advances).bind fun line => .done rfl
    next => exact .none rfl
  have statements (n : Nat) : Extends source (many (nextStatement rules) n) := by
    refine .many (.look looks_peek fun cs => ?_) n
    split
    next => exact .none rfl
    next => exact (good _).offered
  exact line.bind fun line => .look looks_bound fun n => (statements n).bind fun all => .node (.refl _)

/-- The nodes of a program stand inside its text, in order, and between characters. -/
theorem spans_readProgram {source : List Char} {root : Node} (read : readProgram source = some root) :
    Spans source 0 (Text.byteSize source) [root] := by
  obtain ⟨⟨_, c⟩, ran, rfl⟩ := Option.map_eq_some_iff.1 read
  have start : Stage source 0 true [] (Cursor.ofSource source) :=
    ⟨.refl _, Text.isBoundary_zero source, Nat.zero_le _, .nil, fun _ => Nat.le_refl 0⟩
  have stage := carries_program (forward_rulesTo source (nesting source)) _ _ _ start ran
  exact stage.spans.widen (Nat.le_refl 0) stage.reached.offset_of_start.1

/-- What the grammar reads makes a tree unless an object literal has a default value: no source is refused for where
its nodes stand. -/
theorem isSome_ofSource? (source : List Char) :
    (Tree.ofSource? source).isSome = (readProgram source).any (·.all Node.settled) := by
  unfold Tree.ofSource?
  cases read : readProgram source with
  | none => rfl
  | some root =>
    have spans := spans_readProgram read
    have placed : root.placed 0 (Text.byteSize source) = true := (Node.placedIn_cons.1 spans.placed).1
    have bounded := Node.all_of_mem spans.bounded List.mem_cons_self
    simp only [contains_boundaries, Option.any_some]
    by_cases settled : root.all Node.settled = true
    next => rw [dif_pos settled, dif_pos placed, dif_pos bounded, Option.isSome_some, settled]
    next => rw [dif_neg settled, Option.isSome_none, Bool.eq_false_iff.2 settled]

end ClassLinker.Script
