import ClassLinker.Script.Tree
import ClassLinker.Proofs.Parallel.Expressions

set_option autoImplicit false

namespace ClassLinker.Script.Grammar

open Located Reader

variable {k m : Nat} {rules rules' : Rules}

theorem parallel_pattern {literal : Node} {n : Nat} (less : m < n) :
    Parallel k true m (Passed k n) (bindingTarget.pattern literal) (bindingTarget.pattern (shift k literal)) := by
  unfold bindingTarget.pattern
  rw [Node.target?, Node.pattern?_shift, ← Node.target?]
  cases literal.target? with
  | none => exact .failure
  | some target => exact .passed rfl less

theorem takes_bindingTarget (inner : Inner k m rules rules') :
    Takes k m (bindingTarget rules) (bindingTarget rules') := by
  intro tight
  refine .peek fun cs => ?_
  split
  next => exact (takes_array inner).bind fun literal left less => parallel_pattern less
  next => exact (takes_object inner).bind fun literal left less => parallel_pattern less
  next => exact takes_word tight

theorem takes_declarator (inner : Inner k m rules rules') : Takes k m (declarator rules) (declarator rules') := by
  intro tight
  refine (takes_bindingTarget inner).bind fun target left less => ?_
  refine .ifEquals ?_ (.passed (by simp) less)
  refine (takes_symbol (by decide)).bind fun _ left' less' => ?_
  refine (inner left' (by omega) _).bind fun value i lt => ?_
  exact .node (by omega) (by simp) rfl

theorem initialised_shift (ds : List Node) : initialised (shift k ds) = initialised ds := by
  unfold initialised
  rw [show shift k ds = ds.map (shift k) from rfl, List.getLast?_map]
  cases ds.getLast? <;> simp

theorem takes_declarators (inner : Inner k m rules rules') : Takes k m (declarators rules) (declarators rules') := by
  intro tight
  refine (takes_declarator inner).bind fun first left less => ?_
  refine .manyThen ?_ fun rest left' le => .passed rfl (by omega)
  intro i le tight
  refine .ifSymbol (by decide) ?_ (declined (.inr rfl))
  intro i' lt
  exact (takes_declarator (inner.mono (by omega))).offered (by omega)

theorem takes_declaration (inner : Inner k m rules rules') : Takes k m (declaration rules) (declaration rules') := by
  intro tight
  refine .here fun start => .seesWord fun var => ?_
  refine takes_word.bind fun _ left less => ?_
  refine (takes_declarators (inner.mono (by omega))).bind fun all left' less' => ?_
  rw [initialised_shift]
  exact (parallel_semicolon _).thenKept fun _ i le => .node (by omega) rfl rfl

theorem takes_functionDeclaration (inner : Inner k m rules rules') :
    Takes k m (functionDeclaration rules) (functionDeclaration rules') := by
  intro tight
  refine .here fun start => ?_
  refine (tries_keyword (by decide)).bind fun _ left le => ?_
  refine (takes_functionFrom (inner.mono le) start).bind fun whole left' less => ?_
  exact .passed (by simp) (by omega)

section

variable {β : Type} {tight : Bool} {After : β → β → Bool → Nat → Prop} {next next' : Bool → Reader β}
  (rest : ∀ b, Parallel k tight m After (next b) (next' b))

include rest

theorem parallel_seesFunctionDeclaration :
    Parallel k tight m After (seesFunctionDeclaration >>= next) (seesFunctionDeclaration >>= next') := by
  have named {m : Nat} : Tries k m functionNamed functionNamed := by
    intro tight
    refine .ifKeyword (by decide) ?_ (.kept rfl (.inr rfl) (Nat.le_refl m))
    intro left less
    exact (tries_symbol (by decide)).bind fun _ left' le => .peek fun cs => .kept rfl (.inl rfl) (by omega)
  refine .ahead ?_ rest
  intro tight
  refine .ifKeyword (by decide) ?_ (named tight)
  intro left less
  refine .seesHiddenSemicolon fun ended => .ite (.kept rfl (.inl rfl) (by omega)) ?_
  exact named.within (.inl rfl) (by omega)

theorem parallel_seesClassDeclaration :
    Parallel k tight m After (seesClassDeclaration >>= next) (seesClassDeclaration >>= next') := by
  refine .ahead ?_ rest
  intro tight
  refine .ifKeyword (by decide) ?_ (.kept rfl (.inr rfl) (Nat.le_refl m))
  intro left less
  exact .peek fun cs => .seesWord fun extends_ => .kept rfl (.inl rfl) (by omega)

theorem parallel_seesLexicalDeclaration :
    Parallel k tight m After (seesLexicalDeclaration >>= next) (seesLexicalDeclaration >>= next') := by
  simp only [seesLexicalDeclaration, bind_assoc]
  refine .seesWord fun let_ => ?_
  split
  next =>
    rw [bind_assoc, bind_assoc]
    exact .peekAfter fun after => .pureThen (rest _)
  next => exact .pureThen (rest _)

theorem parallel_seesMembership :
    Parallel k tight m After (seesMembership >>= next) (seesMembership >>= next') := by
  simp only [seesMembership, bind_assoc, pure_bind]
  exact .seesWord fun in_ => .seesWord fun of_ => rest _

theorem parallel_seesLabel : Parallel k tight m After (seesLabel >>= next) (seesLabel >>= next') := by
  simp only [seesLabel, bind_assoc]
  refine .peekWord fun text => ?_
  split
  next => exact .pureThen (rest _)
  next =>
    rw [bind_assoc, bind_assoc]
    exact .peekAfter fun after => .pureThen (rest _)

end

theorem parallel_declaration? (inner : Inner k m rules rules') {tight : Bool} :
    Parallel k tight m (Offered k tight m) (declaration? rules) (declaration? rules') := by
  refine .seesWord fun var => .seesWord fun const => parallel_seesLexicalDeclaration fun lexical => ?_
  refine .ite ((takes_declaration inner).offered (Nat.le_refl m)) ?_
  refine parallel_seesFunctionDeclaration fun function => ?_
  refine .ite ((takes_functionDeclaration inner).offered (Nat.le_refl m)) ?_
  refine parallel_seesClassDeclaration fun class_ => ?_
  refine .ite ?_ (declined (.inr rfl))
  exact .here fun start => (takes_classFrom inner .classDeclaration start rfl).offered (Nat.le_refl m)

theorem takes_source : Takes k m source source := takes_string

theorem takes_fromClause : Takes k m fromClause fromClause := by
  intro tight
  exact (takes_keyword (by decide)).bind fun _ left less => takes_source.within (by omega)

theorem takes_exportedName : Takes k m exportedName exportedName := by
  intro tight
  refine .peek fun cs => ?_
  split
  next => exact takes_source tight
  next => exact takes_source tight
  next => exact takes_word tight

theorem takes_specifier (kind : Kind) : Takes k m (specifier kind) (specifier kind) := by
  intro tight
  refine takes_exportedName.bind fun name left less => ?_
  refine .ifKeyword (by decide) ?_ (.node less (by simp) rfl)
  intro left' less'
  exact takes_exportedName.bind fun other i lt => .node (by omega) (by simp) rfl

theorem takes_specifiers (kind entry : Kind) : Takes k m (specifiers kind entry) (specifiers kind entry) := by
  intro tight
  refine .here fun start => ?_
  refine (takes_symbol (by decide)).bind fun _ left less => ?_
  refine .bound fun n n' enough enough' => ?_
  have list : Takes k left (slots "\x7d" (specifier entry) n) (slots "\x7d" (specifier entry) n') :=
    takes_slots (by decide) (fun _ _ => takes_specifier entry) enough enough'
  refine list.bind fun list left' less' => ?_
  rw [items_shift, isEmpty_shift, gaps_shift]
  exact .require (.node (by omega) rfl rfl)

theorem takes_namespaceImport (kind : Kind) : Takes k m (namespaceImport kind) (namespaceImport kind) := by
  intro tight
  refine .here fun start => ?_
  refine (takes_symbol (by decide)).bind fun _ left less => ?_
  refine (takes_keyword (by decide)).bind fun _ left' less' => ?_
  exact takes_exportedName.bind fun name i lt => .node (by omega) rfl rfl

theorem takes_importedNames : Takes k m importedNames importedNames := by
  intro tight
  exact .ifSees (takes_namespaceImport _ tight) (takes_specifiers _ _ tight)

theorem takes_importClause : Takes k m importClause importClause := by
  intro tight
  refine .here fun start => .sees fun star => .sees fun brace => .ite ?_ ?_
  next => exact takes_importedNames.bind fun names left less => .node less rfl rfl
  refine takes_word.bind fun name left less => ?_
  refine .ifSymbol (by decide) ?_ (.node less rfl rfl)
  intro left' less'
  exact takes_importedNames.bind fun names i lt => .node (by omega) rfl rfl

theorem tries_importAttribute (inner : Inner k m rules rules') :
    Tries k m (importAttribute rules) (importAttribute rules') := by
  intro tight
  refine .here fun start => ?_
  refine .ifKeyword (by decide) ?_ (.kept rfl (.inr rfl) (Nat.le_refl m))
  intro left less
  refine (takes_object (inner.mono (by omega))).bind fun object left' less' => ?_
  exact .nodeThen rfl rfl fun stop => .kept rfl (.inl rfl) (by omega)

theorem takes_importParts : Takes k m importParts importParts := by
  intro tight
  refine .sees fun single => .sees fun double => .ite ?_ ?_
  next => exact takes_source.bind fun name left less => .passed rfl less
  next =>
    refine takes_importClause.bind fun clause left less => ?_
    exact takes_fromClause.bind fun name left' less' => .passed rfl (by omega)

theorem takes_importStatement (inner : Inner k m rules rules') :
    Takes k m (importStatement rules) (importStatement rules') := by
  intro tight
  refine .here fun start => ?_
  refine (takes_keyword (by decide)).bind fun _ left less => ?_
  refine takes_importParts.bind fun parts left' less' => ?_
  refine (tries_importAttribute (inner.mono (by omega))).bind fun extra i le => ?_
  exact (parallel_semicolon false).thenKept fun _ j le' => .node (by omega) rfl (by simp)

theorem tries_exportOrigin : Tries k m exportOrigin exportOrigin := by
  intro tight
  refine .ifSeesWord ?_ (.kept rfl (.inr rfl) (Nat.le_refl m))
  exact takes_fromClause.bind fun name left less => .kept rfl (.inl rfl) (by omega)

theorem takes_exportedAll : Takes k m exportedAll exportedAll := by
  intro tight
  refine .peekAfter fun after => .ite ?_ ?_
  next => exact (takes_namespaceImport _).bind fun name left less => .passed rfl less
  next => exact (takes_symbol (by decide)).bind fun _ left less => .passed rfl less

theorem takes_exportStatement (inner : Inner k m rules rules') (start : Nat) {marks marks' : List Node}
    (same : marks' = shift k marks) :
    Takes k m (exportStatement rules start marks) (exportStatement rules' (start + k) marks') := by
  intro tight
  subst same
  refine (takes_keyword (by decide)).bind fun _ left less => ?_
  refine .ifKeyword (by decide) ?_ (.ifSees ?_ (.ifSees ?_ ?_))
  next =>
    intro left' less'
    refine (parallel_declaration? (inner.mono (by omega))).bind ?_
    rintro declared _ after i ⟨⟨rfl, tightness, le⟩, taken⟩
    obtain rfl : after = true := by simpa using tightness
    cases declared with
    | some declared => exact .node (by omega) rfl (by simp)
    | none =>
      refine (inner i (by omega) _).bind fun value j lt => ?_
      exact (parallel_semicolon true).thenKept fun _ j' le' => .node (by omega) rfl (by simp)
  next =>
    rw [isEmpty_shift]
    refine .require ?_
    refine (takes_specifiers _ _).bind fun clause left' less' => ?_
    refine tries_exportOrigin.bind fun origin i le => ?_
    exact (parallel_semicolon false).thenKept fun _ j le' => .node (by omega) rfl rfl
  next =>
    rw [isEmpty_shift]
    refine .require ?_
    refine takes_exportedAll.bind fun all left' less' => ?_
    refine takes_fromClause.bind fun origin i lt => ?_
    exact (parallel_semicolon false).thenKept fun _ j le' => .node (by omega) rfl (by simp)
  next =>
    refine (parallel_declaration? (inner.mono (by omega))).bind ?_
    rintro declared _ after i ⟨⟨rfl, tightness, le⟩, taken⟩
    obtain rfl : after = true := by simpa using tightness
    cases declared with
    | some declared => exact .node (by omega) rfl (by simp)
    | none => exact .failure

theorem takes_decorated (inner : Inner k m rules rules') : Takes k m (decorated rules) (decorated rules') := by
  intro tight
  refine .here fun start => ?_
  refine (tries_decorators inner).bind fun marks left le => ?_
  refine .ifSeesWord ?_ (parallel_seesClassDeclaration fun class_ => .ite ?_ ?_)
  next => exact (takes_exportStatement (inner.mono le) start rfl).within le
  next => exact (takes_classFrom (inner.mono le) .classDeclaration start rfl).within le
  next =>
    refine (takes_classFrom (inner.mono le) .classExpression start rfl).bind fun value left' less => ?_
    exact (parallel_semicolon true).thenKept fun _ i le' => .node (by omega) rfl rfl

theorem takes_condition (inner : Inner k m rules rules') : Takes k m (condition rules) (condition rules') := by
  intro tight
  refine .here fun start => ?_
  refine (takes_symbol (by decide)).bind fun _ left less => ?_
  refine (inner left less _).bind fun value left' less' => ?_
  exact (takes_symbol (by decide)).bind fun _ i lt => .node (by omega) rfl rfl

theorem takes_ifStatement (inner : Inner k m rules rules') : Takes k m (ifStatement rules) (ifStatement rules') := by
  intro tight
  refine .here fun start => ?_
  refine (takes_keyword (by decide)).bind fun _ left less => ?_
  refine (takes_condition (inner.mono (by omega))).bind fun test left' less' => ?_
  refine (inner left' (by omega) _).bind fun yes i lt => ?_
  refine .here fun between => .ifKeyword (by decide) ?_ (.node (by omega) rfl rfl)
  intro i' lt'
  refine (inner i' (by omega) _).bind fun no j lt'' => ?_
  exact .nodeThen rfl rfl fun stop => .node (by omega) rfl rfl

theorem tries_branchBody (inner : Inner k (m + 1) rules rules') :
    Tries k m (branchBody rules) (branchBody rules') := by
  intro tight
  refine .bound fun n n' enough enough' => tries_many ?_ enough enough' tight
  intro left le tight
  refine .sees fun brace => .seesWord fun case_ => .seesWord fun default => .ite (declined (.inr rfl)) ?_
  exact (inner left (by omega) _).offered (Nat.le_refl _)

theorem takes_branch (inner : Inner k m rules rules') : Takes k m (branch rules) (branch rules') := by
  intro tight
  refine .here fun start => .ifKeyword (by decide) ?_ ?_
  next =>
    intro left less
    refine (takes_symbol (by decide)).bind fun _ left' less' => ?_
    exact (tries_branchBody (inner.mono (by omega))).bind fun body i le => .node (by omega) rfl rfl
  next =>
    refine (takes_keyword (by decide)).bind fun _ left less => ?_
    refine (inner left less _).bind fun value left' less' => ?_
    refine (takes_symbol (by decide)).bind fun _ i lt => ?_
    exact (tries_branchBody (inner.mono (by omega))).bind fun body j le => .node (by omega) rfl rfl

theorem takes_switchStatement (inner : Inner k m rules rules') :
    Takes k m (switchStatement rules) (switchStatement rules') := by
  intro tight
  refine .here fun start => ?_
  refine (takes_keyword (by decide)).bind fun _ left less => ?_
  refine (takes_condition (inner.mono (by omega))).bind fun value left' less' => ?_
  refine .here fun opening => ?_
  refine (takes_symbol (by decide)).bind fun _ i lt => ?_
  refine .manyThen ?_ fun branches j le => ?_
  next =>
    intro j le tight
    exact .ifSees (declined (.inr rfl)) ((takes_branch (inner.mono (by omega))).offered (Nat.le_refl _))
  refine (takes_symbol (by decide)).bind fun _ j' lt' => ?_
  exact .nodeThen rfl rfl fun stop => .node (by omega) rfl rfl

theorem takes_memberTarget (inner : Inner k (m + 1) rules rules') :
    Takes k m (memberTarget rules) (memberTarget rules') := by
  intro tight
  refine .ifKeyword (by decide) ?_ ?_
  next =>
    intro left less
    refine (takes_bindingTarget (inner.mono (by omega))).bind fun target left' less' => ?_
    refine .ifEquals ?_ (.passed rfl (by omega))
    refine (takes_symbol (by decide)).bind fun _ i lt => ?_
    exact (inner i (by omega) _).bind fun value j lt' => .passed rfl (by omega)
  refine .seesWord fun const => parallel_seesLexicalDeclaration fun lexical => .ite ?_ ?_
  next =>
    refine takes_word.bind fun _ left less => ?_
    exact (takes_bindingTarget (inner.mono (by omega))).bind fun target left' less' => .passed rfl (by omega)
  next =>
    refine (takes_accessOperand (inner.mono (by omega)) (inner m (by omega) _)).bind fun value left less => ?_
    dsimp only
    rw [target?_shift]
    cases (if value.kind = .parenthesizedExpression then some value else value.target?) with
    | none => exact .failure
    | some target => exact .passed rfl less

theorem takes_memberHead (inner : Inner k m rules rules') : Takes k m (memberHead rules) (memberHead rules') := by
  intro tight
  refine (takes_symbol (by decide)).bind fun _ left less => ?_
  refine (takes_memberTarget (inner.mono (by omega))).bind fun target left' less' => ?_
  refine parallel_seesMembership fun membership => .require ?_
  refine takes_word.bind fun _ i lt => ?_
  refine (inner i (by omega) _).bind fun object j lt' => ?_
  exact (takes_symbol (by decide)).bind fun _ j' lt'' => .passed (by simp) (by omega)

theorem takes_emptyStatement : Takes k m emptyStatement emptyStatement := by
  intro tight
  exact .here fun start => (takes_symbol (by decide)).bind fun _ left less => .node less rfl rfl

theorem takes_countingClause (inner : Inner k (m + 1) rules rules') :
    Takes k m (countingClause rules) (countingClause rules') := by
  intro tight
  refine .ifSees (takes_emptyStatement tight) ?_
  refine (inner m (by omega) _).bind fun value left less => ?_
  exact (takes_symbol (by decide)).bind fun _ left' less' => .passed rfl (by omega)

theorem takes_countingStart (inner : Inner k (m + 1) rules rules') :
    Takes k m (countingStart rules) (countingStart rules') := by
  intro tight
  refine .seesWord fun var => .seesWord fun const => parallel_seesLexicalDeclaration fun lexical => .ite ?_ ?_
  next => exact takes_declaration (inner.mono (by omega)) tight
  next => exact takes_countingClause inner tight

theorem takes_countingHead (inner : Inner k m rules rules') :
    Takes k m (countingHead rules) (countingHead rules') := by
  intro tight
  refine (takes_symbol (by decide)).bind fun _ left less => ?_
  refine (takes_countingStart (inner.mono (by omega))).bind fun first left' less' => ?_
  refine (takes_countingClause (inner.mono (by omega))).bind fun test i lt => ?_
  refine .ifSymbol (by decide) (fun j lt' => .passed rfl (by omega)) ?_
  refine (inner i (by omega) _).bind fun step j lt' => ?_
  exact (takes_symbol (by decide)).bind fun _ j' lt'' => .passed rfl (by omega)

theorem takes_forStatement (inner : Inner k m rules rules') :
    Takes k m (forStatement rules) (forStatement rules') := by
  intro tight
  refine .here fun start => ?_
  refine (takes_keyword (by decide)).bind fun _ left less => ?_
  refine .ifKeyword (by decide) ?_ ?_
  next =>
    intro left' less'
    refine (takes_memberHead (inner.mono (by omega))).bind fun head i lt => ?_
    exact (inner i (by omega) _).bind fun body j lt' => .node (by omega) rfl (by simp)
  next =>
    -- a loop over members is tried first, and what it has read is read again if it is none
    have heads : Parallel k true left (Passed k left)
        ((do pure (Kind.forInStatement, ← memberHead rules)) <|> (do pure (Kind.forStatement, ← countingHead rules)))
        ((do pure (Kind.forInStatement, ← memberHead rules')) <|>
          (do pure (Kind.forStatement, ← countingHead rules'))) := by
      refine .orElse ?_ ?_
      next => exact (takes_memberHead (inner.mono (by omega))).bind fun head i lt => .passed rfl lt
      next => exact (takes_countingHead (inner.mono (by omega))).bind fun head i lt => .passed rfl lt
    refine heads.bind ?_
    rintro ⟨kind, head⟩ _ _ i ⟨rfl, rfl, lt⟩
    exact (inner i (by omega) _).bind fun body j lt' => .node (by omega) rfl (by simp)

theorem takes_doStatement (inner : Inner k m rules rules') : Takes k m (doStatement rules) (doStatement rules') := by
  intro tight
  refine .here fun start => ?_
  refine (takes_keyword (by decide)).bind fun _ left less => ?_
  refine (inner left less _).bind fun body left' less' => ?_
  refine (takes_keyword (by decide)).bind fun _ i lt => ?_
  refine (takes_condition (inner.mono (by omega))).bind fun test j lt' => ?_
  refine .nodeThen rfl rfl fun stop => ?_
  refine (parallel_hiddenSemicolon false).thenKept fun ended j' le => .ite ?_ ?_
  next => exact .passed rfl (by omega)
  next => exact (tries_symbol (by decide)).bind fun _ i' le' => .passed rfl (by omega)

theorem tries_caught (inner : Inner k m rules rules') :
    Tries k m (tryStatement.caught rules) (tryStatement.caught rules') := by
  intro tight
  refine .ifSymbol (by decide) ?_ (.kept rfl (.inr rfl) (Nat.le_refl m))
  intro left less
  refine (takes_bindingTarget (inner.mono (by omega))).bind fun target left' less' => ?_
  exact (takes_symbol (by decide)).bind fun _ i lt => .kept rfl (.inl rfl) (by omega)

theorem tries_handled (inner : Inner k m rules rules') :
    Tries k m (tryStatement.handled rules) (tryStatement.handled rules') := by
  intro tight
  refine .here fun start => .ifKeyword (by decide) ?_ (.kept rfl (.inr rfl) (Nat.le_refl m))
  intro left less
  refine (tries_caught (inner.mono (by omega))).bind fun parameter i le => ?_
  refine (takes_block (inner.mono (by omega))).bind fun body left' less' => ?_
  exact .nodeThen rfl (by simp) fun stop => .kept rfl (.inl rfl) (by omega)

theorem tries_finished (inner : Inner k m rules rules') :
    Tries k m (tryStatement.finished rules) (tryStatement.finished rules') := by
  intro tight
  refine .here fun start => .ifKeyword (by decide) ?_ (.kept rfl (.inr rfl) (Nat.le_refl m))
  intro left less
  refine (takes_block (inner.mono (by omega))).bind fun body left' less' => ?_
  exact .nodeThen rfl rfl fun stop => .kept rfl (.inl rfl) (by omega)

theorem takes_tryStatement (inner : Inner k m rules rules') :
    Takes k m (tryStatement rules) (tryStatement rules') := by
  intro tight
  refine .here fun start => ?_
  refine (takes_keyword (by decide)).bind fun _ left less => ?_
  refine (takes_block (inner.mono (by omega))).bind fun body left' less' => ?_
  refine (tries_handled (inner.mono (by omega))).bind fun handler i le => ?_
  refine (tries_finished (inner.mono (by omega))).bind fun last j le' => ?_
  exact .node (by omega) rfl (by simp)

theorem takes_jump {text : String} (visible : text.toList ≠ []) (kind : Kind) :
    Takes k m (jump text kind) (jump text kind) := by
  intro tight
  refine .here fun start => ?_
  refine (takes_keyword visible).bind fun _ left less => ?_
  refine (parallel_hiddenSemicolon false).thenKept fun ended i le => .ite (.node (by omega) rfl rfl) ?_
  refine .peek fun cs => .ite ?_ ?_
  next =>
    refine takes_word.bind fun label left' less' => ?_
    exact (parallel_semicolon false).thenKept fun _ j le' => .node (by omega) rfl rfl
  next => exact (takes_symbol (by decide)).bind fun _ j lt => .node (by omega) rfl rfl

theorem takes_returnStatement (inner : Inner k m rules rules') :
    Takes k m (returnStatement rules) (returnStatement rules') := by
  intro tight
  refine .here fun start => ?_
  refine (takes_keyword (by decide)).bind fun _ left less => ?_
  refine (parallel_hiddenSemicolon false).thenKept fun ended i le => .ite (.node (by omega) rfl rfl) ?_
  refine .ifSymbol (by decide) (fun j lt => .node (by omega) rfl rfl) ?_
  refine (inner i (by omega) _).bind fun value j lt => ?_
  exact (parallel_semicolon true).thenKept fun _ j' le' => .node (by omega) rfl rfl

theorem takes_throwStatement (inner : Inner k m rules rules') :
    Takes k m (throwStatement rules) (throwStatement rules') := by
  intro tight
  refine .here fun start => ?_
  refine (takes_keyword (by decide)).bind fun _ left less => ?_
  refine (inner left less _).bind fun value left' less' => ?_
  exact (parallel_semicolon true).thenKept fun _ i le => .node (by omega) rfl rfl

theorem takes_guarded (inner : Inner k m rules rules') {text : String} (visible : text.toList ≠ []) (kind : Kind) :
    Takes k m (guarded rules text kind) (guarded rules' text kind) := by
  intro tight
  refine .here fun start => ?_
  refine (takes_keyword visible).bind fun _ left less => ?_
  refine (takes_condition (inner.mono (by omega))).bind fun test left' less' => ?_
  exact (inner left' (by omega) _).bind fun body i lt => .node (by omega) rfl rfl

theorem takes_debuggerStatement : Takes k m debuggerStatement debuggerStatement := by
  intro tight
  refine .here fun start => ?_
  refine (takes_keyword (by decide)).bind fun _ left less => ?_
  exact (parallel_semicolon false).thenKept fun _ i le => .node (by omega) rfl rfl

theorem takes_labeledStatement (inner : Inner k m rules rules') :
    Takes k m (labeledStatement rules) (labeledStatement rules') := by
  intro tight
  refine takes_word.bind fun label left less => ?_
  refine (takes_symbol (by decide)).bind fun _ left' less' => ?_
  exact (inner left' (by omega) _).bind fun body i lt => .node (by omega) (by simp) rfl

theorem reserved?_related (inner : Inner k m rules rules') (text : String) :
    Option.Rel (Takes k m) (reserved? rules text) (reserved? rules' text) := by
  unfold reserved?
  split
  next => exact .some (takes_ifStatement inner)
  next => exact .some (takes_switchStatement inner)
  next => exact .some (takes_forStatement inner)
  next => exact .some (takes_guarded inner (by decide) _)
  next => exact .some (takes_guarded inner (by decide) _)
  next => exact .some (takes_doStatement inner)
  next => exact .some (takes_tryStatement inner)
  next => exact .some (takes_jump (by decide) _)
  next => exact .some (takes_jump (by decide) _)
  next => exact .some (takes_returnStatement inner)
  next => exact .some (takes_throwStatement inner)
  next => exact .some takes_debuggerStatement
  next => exact .none

section

-- A statement may open with an expression, of which nothing has been read before.
variable (inner : Inner k m rules rules') (sequence : Takes k m (rules .sequence) (rules' .sequence))

include inner sequence

omit inner in
theorem takes_expressionStatement : Takes k m (expressionStatement rules) (expressionStatement rules') := by
  intro tight
  refine sequence.bind fun value left less => ?_
  exact (parallel_semicolon true).thenKept fun _ i le => .node (by omega) (by simp) rfl

theorem takes_bracedStatement : Takes k m (bracedStatement rules) (bracedStatement rules') := by
  intro tight
  refine .get fun c d meets size => .orElse (takes_block inner tight) ?_
  rw [meets.literal]
  refine .require (.set (meets.setLiteral false) ?_)
  rw [size]
  refine (takes_expressionStatement sequence).bind fun whole left less => ?_
  exact .modify (fun _ => rfl) (fun _ _ meets => meets.setLiteral true) (.passed rfl less)

theorem takes_wordStatement : Takes k m (wordStatement rules) (wordStatement rules') := by
  intro tight
  refine .peekWord fun text => ?_
  have reserved := reserved?_related inner (String.ofList text)
  generalize reserved? rules (String.ofList text) = statement at reserved
  generalize reserved? rules' (String.ofList text) = statement' at reserved
  cases reserved with
  | some takes => exact takes tight
  | none =>
    refine (parallel_declaration? inner).bind ?_
    rintro declared _ after left ⟨⟨rfl, tightness, le⟩, taken⟩
    cases declared with
    | some declared =>
      obtain ⟨rfl, less⟩ := taken rfl
      exact .passed rfl less
    | none =>
      have expression : Takes k left (expressionStatement rules) (expressionStatement rules') := by
        rcases Nat.lt_or_eq_of_le le with less | rfl
        next => exact takes_expressionStatement (inner left less _)
        next => exact takes_expressionStatement sequence
      refine parallel_seesLabel fun label => .ite ?_ (.ifSeesWord ?_ (.ifSeesWord ?_ ?_))
      next => exact (takes_labeledStatement (inner.mono le)).within le
      next => exact .here fun start => (takes_exportStatement (inner.mono le) start rfl).within le
      next =>
        refine .peekAfter fun after => ?_
        split
        next => exact expression.within le
        next => exact expression.within le
        next => exact (takes_importStatement (inner.mono le)).within le
      next => exact expression.within le

theorem takes_statement : Takes k m (statement rules) (statement rules') := by
  intro tight
  refine .peek fun cs => ?_
  split
  next => exact takes_bracedStatement inner sequence tight
  next => exact takes_emptyStatement tight
  next => exact takes_decorated inner tight
  next => exact .ite (takes_wordStatement inner sequence tight) (takes_expressionStatement sequence tight)

end

end ClassLinker.Script.Grammar

namespace ClassLinker.Script

open Grammar

def Goal.rank : Goal → Nat
  | .statement => 3
  | .sequence => 2
  | .expression _ => 1
  | .element => 0

theorem Goal.rank_le (goal : Goal) : goal.rank ≤ 3 := by
  cases goal <;> simp [Goal.rank]

theorem takes_rulesTo {k m n n' : Nat} {goal : Goal} (enough : 4 * m + goal.rank < n)
    (enough' : 4 * m + goal.rank < n') : Takes k m (rulesTo n goal) (rulesTo n' goal) := by
  -- each step into the rules either reads something or goes down in rank
  induction n generalizing m n' goal with
  | zero => omega
  | succ n ih =>
    obtain ⟨n', rfl⟩ : ∃ i, n' = i + 1 := ⟨n' - 1, by omega⟩
    have inner : Inner k m (rulesTo n) (rulesTo n') := by
      intro left less inside
      have := inside.rank_le
      exact ih (by omega) (by omega)
    have lower {other : Goal} (less : other.rank < goal.rank) : Takes k m (rulesTo n other) (rulesTo n' other) :=
      ih (by omega) (by omega)
    cases goal with
    | statement => exact takes_statement inner (lower (by simp [Goal.rank]))
    | sequence => exact takes_sequence inner (lower (by simp [Goal.rank]))
    | expression level => exact takes_expression inner (lower (by simp [Goal.rank])) level
    | element => exact takes_element inner

end ClassLinker.Script
