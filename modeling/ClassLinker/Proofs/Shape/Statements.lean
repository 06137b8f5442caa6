import ClassLinker.Proofs.Shape.Expressions

set_option autoImplicit false

namespace ClassLinker.Script.Grammar

open Node (Shaped)
open Reader (Yields)

variable {rules : Rules}

section
variable (good : Rules.Good rules)
include good

theorem shaped_bindingTarget : Yields Shaped (bindingTarget rules) := by
  have pattern {literal : Node} (shaped : literal.Shaped) : Yields Shaped (bindingTarget.pattern literal) := by
    unfold bindingTarget.pattern
    split
    next target read => exact .pure (Node.Shaped.pattern .target literal shaped target read)
    next => exact .failure
  refine .skip fun cs => ?_
  split
  next => exact (shaped_array good).bind fun literal shaped => pattern shaped
  next => exact (shaped_object good).bind fun literal shaped => pattern shaped
  next => exact shaped_word _

theorem shaped_declaration : Yields Shaped (declaration rules) := by
  have declarator : Yields Shaped (declarator rules) := by
    refine (shaped_bindingTarget good).bind fun target first => .skip fun equals => ?_
    split
    next => exact .skip fun _ => (good _).bind fun value second => .node rfl (by simpa using ⟨first, second⟩)
    next => exact .pure (Node.shaped_plain rfl (by simpa using first))
  have declarators : Yields (fun ns => ∀ v ∈ ns, v.Shaped) (declarators rules) := by
    refine declarator.bind fun first shaped => .skip fun n => ?_
    refine (Yields.many (S := Shaped) (.skip fun comma => ?_) n).bind fun rest others => ?_
    next =>
      split
      next => exact declarator.offered
      next => exact .declined
    next => exact .pure (by simpa using ⟨shaped, others⟩)
  refine .skip fun start => .skip fun isVar => ?_
  refine .skip fun _ => declarators.bind fun all parts => .skip fun _ => .node ?_ parts
  split <;> rfl

theorem shaped_functionDeclaration : Yields Shaped (functionDeclaration rules) := by
  refine .skip fun start => .skip fun _ => (shaped_functionFrom good start).bind fun whole shaped => ?_
  exact .pure (shaped.withKind (by split <;> rfl))

theorem yields_declaration? : Yields (fun o => ∀ v ∈ o, v.Shaped) (declaration? rules) := by
  refine .skip fun _ => .skip fun _ => .skip fun _ => ?_
  split
  next => exact (shaped_declaration good).offered
  refine .skip fun function => ?_
  split
  next => exact (shaped_functionDeclaration good).offered
  refine .skip fun isClass => ?_
  split
  next => exact .skip fun start => (shaped_classFrom good rfl start (by simp)).offered
  next => exact .declined

end

theorem shaped_source : Yields Shaped source := shaped_lexeme .string _

theorem shaped_fromClause : Yields Shaped fromClause := .skip fun _ => shaped_source

theorem shaped_exportedName : Yields Shaped exportedName := by
  refine .skip fun cs => ?_
  split
  next => exact shaped_source
  next => exact shaped_source
  next => exact shaped_word _

theorem shaped_specifiers {kind entry : Kind} (plain : kind.isPlain = true) (plain' : entry.isPlain = true) :
    Yields Shaped (specifiers kind entry) := by
  have specifier : Yields Shaped (specifier entry) := by
    refine shaped_exportedName.bind fun name first => .skip fun named => ?_
    split
    next => exact shaped_exportedName.bind fun other second => .node plain' (by simpa using ⟨first, second⟩)
    next => exact .node plain' (by simpa using first)
  refine .skip fun start => .skip fun _ => .skip fun n => ?_
  exact (yields_slots specifier n).bind fun list items => .skip fun _ => .node plain items

theorem shaped_namespaceImport {kind : Kind} (plain : kind.isPlain = true) : Yields Shaped (namespaceImport kind) := by
  refine .skip fun start => .skip fun _ => .skip fun _ => ?_
  exact shaped_exportedName.bind fun name shaped => .node plain (by simpa using shaped)

theorem yields_importParts : Yields (fun ns => ∀ v ∈ ns, v.Shaped) importParts := by
  have names : Yields Shaped importedNames := by
    refine .skip fun star => ?_
    split
    next => exact shaped_namespaceImport rfl
    next => exact shaped_specifiers rfl rfl
  have clause : Yields Shaped importClause := by
    refine .skip fun start => .skip fun _ => .skip fun _ => ?_
    split
    next => exact names.bind fun inner shaped => .node rfl (by simpa using shaped)
    refine (shaped_word .identifier).bind fun name first => .skip fun comma => ?_
    split
    next => exact names.bind fun inner second => .node rfl (by simpa using ⟨first, second⟩)
    next => exact .node rfl (by simpa using first)
  refine .skip fun _ => .skip fun _ => ?_
  split
  next => exact shaped_source.bind fun text shaped => .pure (by simpa using shaped)
  next =>
    refine clause.bind fun names first => shaped_fromClause.bind fun origin second => ?_
    exact .pure (by simpa using ⟨first, second⟩)

theorem yields_exportOrigin : Yields (fun ns => ∀ v ∈ ns, v.Shaped) exportOrigin := by
  refine .skip fun found => ?_
  split
  next => exact shaped_fromClause.bind fun origin shaped => .pure (by simpa using shaped)
  next => exact .pure (by simp)

theorem yields_exportedAll : Yields (fun ns => ∀ v ∈ ns, v.Shaped) exportedAll := by
  refine .skip fun after => ?_
  split
  next => exact (shaped_namespaceImport rfl).bind fun name shaped => .pure (by simpa using shaped)
  next => exact .skip fun _ => .pure (by simp)

section
variable (good : Rules.Good rules)
include good

theorem shaped_importStatement : Yields Shaped (importStatement rules) := by
  have extra : Yields (fun ns => ∀ v ∈ ns, v.Shaped) (importAttribute rules) := by
    refine .skip fun start => .skip fun found => ?_
    split
    next =>
      refine (shaped_object good).bind fun inner shaped => ?_
      exact (Yields.node rfl (by simpa using shaped)).bind fun whole shaped => .pure (by simpa using shaped)
    next => exact .pure (by simp)
  refine .skip fun start => .skip fun _ => yields_importParts.bind fun parts first => ?_
  exact extra.bind fun more second => .skip fun _ => .node rfl (by grind)

theorem shaped_exportStatement (start : Nat) {marks : List Node} (shaped : ∀ v ∈ marks, v.Shaped) :
    Yields Shaped (exportStatement rules start marks) := by
  have exported {inner : Node} (last : inner.Shaped) :
      Yields Shaped (Reader.node .exportStatement start (marks ++ [inner])) := .node rfl (by grind)
  refine .skip fun _ => .skip fun byDefault => ?_
  split
  next =>
    refine (yields_declaration? good).bind fun found shaped => ?_
    split
    next inner => exact exported (shaped inner rfl)
    next => exact (good _).bind fun value last => .skip fun _ => exported last
  refine .skip fun braces => ?_
  split
  next =>
    refine .skip fun _ => (shaped_specifiers rfl rfl).bind fun clause first => ?_
    exact yields_exportOrigin.bind fun origin others => .skip fun _ => .node rfl (by simpa using ⟨first, others⟩)
  refine .skip fun star => ?_
  split
  next =>
    refine .skip fun _ => yields_exportedAll.bind fun all first => ?_
    exact shaped_fromClause.bind fun origin last => .skip fun _ => .node rfl (by grind)
  refine (yields_declaration? good).bind fun found shaped => ?_
  split
  next inner => exact exported (shaped inner rfl)
  next => exact .failure

theorem shaped_decorated : Yields Shaped (decorated rules) := by
  refine .skip fun start => (yields_decorators good).bind fun marks shaped => .skip fun exports => ?_
  split
  next => exact shaped_exportStatement good start shaped
  refine .skip fun isClass => ?_
  split
  next => exact shaped_classFrom good rfl start shaped
  refine (shaped_classFrom good rfl start shaped).bind fun inner shaped => .skip fun _ => ?_
  exact .node rfl (by simpa using shaped)

theorem shaped_condition : Yields Shaped (condition rules) := by
  refine .skip fun start => .skip fun _ => (good _).bind fun inner shaped => .skip fun _ => ?_
  exact .node rfl (by simpa using shaped)

theorem shaped_ifStatement : Yields Shaped (ifStatement rules) := by
  refine .skip fun start => .skip fun _ => (shaped_condition good).bind fun test first => ?_
  refine (good _).bind fun yes second => .skip fun between => .skip fun otherwise => ?_
  split
  next =>
    refine (good _).bind fun no third => ?_
    refine (Yields.node rfl (by simpa using third)).bind fun clause third => ?_
    exact .node rfl (by simpa using ⟨first, second, third⟩)
  next => exact .node rfl (by simpa using ⟨first, second⟩)

theorem shaped_switchStatement : Yields Shaped (switchStatement rules) := by
  have body : Yields (fun ns => ∀ v ∈ ns, v.Shaped) (branchBody rules) := by
    refine .skip fun n => .many (.skip fun _ => .skip fun _ => .skip fun _ => ?_) n
    split
    next => exact .declined
    next => exact (good _).offered
  have branch : Yields Shaped (branch rules) := by
    refine .skip fun start => .skip fun byDefault => ?_
    split
    next => exact .skip fun _ => body.bind fun statements parts => .node rfl parts
    refine .skip fun _ => (good _).bind fun value first => .skip fun _ => ?_
    exact body.bind fun statements parts => .node rfl (by simpa using ⟨first, parts⟩)
  refine .skip fun start => .skip fun _ => (shaped_condition good).bind fun value first => ?_
  refine .skip fun opening => .skip fun _ => .skip fun n => ?_
  refine (Yields.many (S := Shaped) (.skip fun closes => ?_) n).bind fun branches parts => ?_
  next =>
    split
    next => exact .declined
    next => exact branch.offered
  refine .skip fun _ => (Yields.node rfl parts).bind fun body second => ?_
  exact .node rfl (by simpa using ⟨first, second⟩)

theorem yields_memberHead : Yields (fun ns => ∀ v ∈ ns, v.Shaped) (memberHead rules) := by
  have target : Yields (fun ns => ∀ v ∈ ns, v.Shaped) (memberTarget rules) := by
    refine .skip fun isVar => ?_
    split
    next =>
      refine (shaped_bindingTarget good).bind fun target first => .skip fun equals => ?_
      split
      next => exact .skip fun _ => (good _).bind fun value second => .pure (by simpa using ⟨first, second⟩)
      next => exact .pure (by simpa using first)
    refine .skip fun _ => .skip fun _ => ?_
    split
    next => exact .skip fun _ => (shaped_bindingTarget good).bind fun target shaped => .pure (by simpa using shaped)
    refine (shaped_accessOperand good).bind fun left shaped => ?_
    dsimp only
    split
    next target read => exact .pure (by simpa using shaped_target shaped read)
    next => exact .failure
  refine .skip fun _ => target.bind fun targets first => .skip fun _ => .skip fun _ => .skip fun _ => ?_
  exact (good _).bind fun object last => .skip fun _ => .pure (by grind)

theorem yields_countingHead : Yields (fun ns => ∀ v ∈ ns, v.Shaped) (countingHead rules) := by
  have clause : Yields Shaped (countingClause rules) := by
    refine .skip fun missing => ?_
    split
    next => exact .skip fun _ => .skip fun _ => .node rfl (by simp)
    next => exact (good _).bind fun inner shaped => .skip fun _ => .pure shaped
  have start : Yields Shaped (countingStart rules) := by
    refine .skip fun _ => .skip fun _ => .skip fun _ => ?_
    split
    next => exact shaped_declaration good
    next => exact clause
  refine .skip fun _ => start.bind fun first shaped => clause.bind fun test second => .skip fun closes => ?_
  split
  next => exact .pure (by simpa using ⟨shaped, second⟩)
  exact (good _).bind fun step third => .skip fun _ => .pure (by simpa using ⟨shaped, second, third⟩)

theorem shaped_forStatement : Yields Shaped (forStatement rules) := by
  refine .skip fun start => .skip fun _ => .skip fun awaits => ?_
  split
  next => exact (yields_memberHead good).bind fun head first => (good _).bind fun body last => .node rfl (by grind)
  -- a loop is of either kind, and neither is an access or a call
  have either : Yields (fun found => found.1.isPlain = true ∧ ∀ v ∈ found.2, v.Shaped)
      ((do pure (Kind.forInStatement, ← memberHead rules)) <|> (do pure (Kind.forStatement, ← countingHead rules)) :
        Reader (Kind × List Node)) :=
    .orElse ((yields_memberHead good).bind fun head parts => .pure ⟨rfl, parts⟩)
      ((yields_countingHead good).bind fun head parts => .pure ⟨rfl, parts⟩)
  exact either.bind fun found parts => (good _).bind fun body last => .node parts.1 (by grind)

theorem shaped_doStatement : Yields Shaped (doStatement rules) := by
  refine .skip fun start => .skip fun _ => (good _).bind fun body first => .skip fun _ => ?_
  refine (shaped_condition good).bind fun test second => ?_
  refine (Yields.node rfl (by simpa using ⟨first, second⟩)).bind fun whole shaped => .skip fun ends => ?_
  split
  next => exact .pure shaped
  next => exact .skip fun _ => .pure shaped

theorem shaped_tryStatement : Yields Shaped (tryStatement rules) := by
  have caught : Yields (fun ns => ∀ v ∈ ns, v.Shaped) (tryStatement.caught rules) := by
    refine .skip fun opens => ?_
    split
    next => exact (shaped_bindingTarget good).bind fun target shaped => .skip fun _ => .pure (by simpa using shaped)
    next => exact .pure (by simp)
  have handled : Yields (fun ns => ∀ v ∈ ns, v.Shaped) (tryStatement.handled rules) := by
    refine .skip fun start => .skip fun found => ?_
    split
    next =>
      refine caught.bind fun parameter first => (shaped_block good).bind fun body last => ?_
      exact (Yields.node rfl (by grind)).bind fun clause shaped => .pure (by simpa using shaped)
    next => exact .pure (by simp)
  have finished : Yields (fun ns => ∀ v ∈ ns, v.Shaped) (tryStatement.finished rules) := by
    refine .skip fun start => .skip fun found => ?_
    split
    next =>
      refine (shaped_block good).bind fun body shaped => ?_
      exact (Yields.node rfl (by simpa using shaped)).bind fun clause shaped => .pure (by simpa using shaped)
    next => exact .pure (by simp)
  refine .skip fun start => .skip fun _ => (shaped_block good).bind fun body first => ?_
  exact handled.bind fun handler second => finished.bind fun last third => .node rfl (by grind)

omit good in
theorem shaped_jump (text : String) {kind : Kind} (plain : kind.isPlain = true) : Yields Shaped (jump text kind) := by
  refine .skip fun start => .skip fun _ => .skip fun ends => ?_
  split
  next => exact .node plain (by simp)
  refine .skip fun cs => ?_
  split
  next => exact (shaped_word _).bind fun label shaped => .skip fun _ => .node plain (by simpa using shaped)
  next => exact .skip fun _ => .node plain (by simp)

theorem shaped_returnStatement : Yields Shaped (returnStatement rules) := by
  refine .skip fun start => .skip fun _ => .skip fun ends => ?_
  split
  next => exact .node rfl (by simp)
  refine .skip fun semicolon => ?_
  split
  next => exact .node rfl (by simp)
  next => exact (good _).bind fun value shaped => .skip fun _ => .node rfl (by simpa using shaped)

theorem shaped_guarded (text : String) {kind : Kind} (plain : kind.isPlain = true) :
    Yields Shaped (guarded rules text kind) := by
  refine .skip fun start => .skip fun _ => (shaped_condition good).bind fun test first => ?_
  exact (good _).bind fun body second => .node plain (by simpa using ⟨first, second⟩)

theorem shaped_expressionStatement : Yields Shaped (expressionStatement rules) :=
  (good _).bind fun _ shaped => .skip fun _ => .node rfl (by simpa using shaped)

theorem shaped_reserved {text : String} {reader : Reader Node} (found : reserved? rules text = some reader) :
    Yields Shaped reader := by
  unfold reserved? at found
  split at found <;> cases found
  next => exact shaped_ifStatement good
  next => exact shaped_switchStatement good
  next => exact shaped_forStatement good
  next => exact shaped_guarded good _ rfl
  next => exact shaped_guarded good _ rfl
  next => exact shaped_doStatement good
  next => exact shaped_tryStatement good
  next => exact shaped_jump _ rfl
  next => exact shaped_jump _ rfl
  next => exact shaped_returnStatement good
  next =>
    refine .skip fun start => .skip fun _ => (good _).bind fun value shaped => .skip fun _ => ?_
    exact .node rfl (by simpa using shaped)
  next => exact .skip fun start => .skip fun _ => .skip fun _ => .node rfl (by simp)

theorem shaped_wordStatement : Yields Shaped (wordStatement rules) := by
  refine .skip fun text => ?_
  split
  next reader found => exact shaped_reserved good found
  refine (yields_declaration? good).bind fun found shaped => ?_
  split
  next inner => exact .pure (shaped inner rfl)
  refine .skip fun labelled => ?_
  split
  next =>
    refine (shaped_word .statementLabel).bind fun label first => .skip fun _ => ?_
    exact (good _).bind fun body second => .node rfl (by simpa using ⟨first, second⟩)
  refine .skip fun exports => ?_
  split
  next => exact .skip fun start => shaped_exportStatement good start (by simp)
  refine .skip fun imports => ?_
  split
  next =>
    refine .skip fun after => ?_
    split
    next => exact shaped_expressionStatement good
    next => exact shaped_expressionStatement good
    next => exact shaped_importStatement good
  next => exact shaped_expressionStatement good

theorem shaped_statement : Yields Shaped (statement rules) := by
  refine .skip fun cs => ?_
  split
  next =>
    refine .skip fun c => .orElse (shaped_block good) ?_
    refine .skip fun _ => .skip fun _ => (shaped_expressionStatement good).bind fun whole shaped => ?_
    exact .skip fun _ => .pure shaped
  next => exact .skip fun start => .skip fun _ => .node rfl (by simp)
  next => exact shaped_decorated good
  split
  next => exact shaped_wordStatement good
  next => exact shaped_expressionStatement good

end

end ClassLinker.Script.Grammar

namespace ClassLinker.Script

open Grammar

theorem rulesTo_good (n : Nat) : Rules.Good (rulesTo n) := by
  -- the rules one level deeper are the rules that each rule is given
  induction n with
  | zero => exact fun goal => .failure
  | succ n ih =>
    intro goal
    cases goal with
    | statement => exact shaped_statement ih
    | sequence => exact shaped_sequence ih
    | expression level => exact shaped_expression ih level
    | element => exact shaped_element ih

theorem shaped_readProgram {source : List Char} {root : Node} (read : readProgram source = some root) :
    root.Shaped := by
  have line : Reader.Yields (fun ns => ∀ v ∈ ns, v.Shaped) hashBang := by
    refine .skip fun found => ?_
    split
    next => exact (Grammar.shaped_lexeme _ _).bind fun line shaped => .pure (by simpa using shaped)
    next => exact .pure (by simp)
  have whole (rules : Rules) (good : Grammar.Rules.Good rules) : Reader.Yields Node.Shaped (program rules) := by
    refine line.bind fun first shaped => .skip fun n => ?_
    refine (Reader.Yields.many (S := Node.Shaped) (.skip fun cs => ?_) n).bind fun statements parts => ?_
    next =>
      split
      next => exact .declined
      next => exact (good _).offered
    exact .node rfl (by grind)
  obtain ⟨⟨node, c⟩, ran, rfl⟩ := Option.map_eq_some_iff.1 read
  exact whole _ (rulesTo_good _) _ _ _ ran

end ClassLinker.Script
