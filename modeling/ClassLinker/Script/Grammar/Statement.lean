import ClassLinker.Script.Grammar.Expression

set_option autoImplicit false

namespace ClassLinker.Script.Grammar

open Reader

def bindingTarget (rules : Rules) : Reader Node := do
  match ← peek with
  | '[' :: _ => pattern (← array rules)
  | '\x7b' :: _ => pattern (← object rules)
  | _ => word .identifier
where
  pattern (literal : Node) : Reader Node :=
    match literal.target? with
    | some target => return target
    | none => failure

def declarator (rules : Rules) : Reader Node := do
  let target ← bindingTarget rules
  if ← seesEquals then
    symbol "="
    node .variableDeclarator target.start [target, ← rules (.expression 0)]
  else return .mk .variableDeclarator target.start target.stop [target]

def initialised (declarators : List Node) : Bool :=
  declarators.getLast?.any fun d => d.children.length = 2

def declarators (rules : Rules) : Reader (List Node) := do
  let first ← declarator rules
  let rest ← many (do if ← symbol? "," then some <$> declarator rules else return none) (← bound)
  return first :: rest

def declaration (rules : Rules) : Reader Node := do
  let start ← here
  let kind := if ← seesWord "var" then Kind.variableDeclaration else .lexicalDeclaration
  let _ ← word .identifier
  let all ← declarators rules
  semicolon (initialised all)
  node kind start all

def functionDeclaration (rules : Rules) : Reader Node := do
  let start ← here
  let _ ← keyword? "async"
  let whole ← functionFrom rules start
  return whole.withKind (if whole.kind = .generatorFunction then .generatorDeclaration else .functionDeclaration)

def functionNamed : Reader Bool := do
  if ← keyword? "function" then
    let _ ← symbol? "*"
    return startsWord (← peek)
  else return false

def seesFunctionDeclaration : Reader Bool := ahead do
  if ← keyword? "async" then
    if ← seesHiddenSemicolon true then return false else functionNamed
  else functionNamed

def seesClassDeclaration : Reader Bool := ahead do
  if ← keyword? "class" then return startsWord (← peek) && !(← seesWord "extends") else return false

def seesLexicalDeclaration : Reader Bool := do
  if ← seesWord "let" then
    let after ← peekAfter "let"
    return after.head? == some '[' || after.head? == some '\x7b' ||
      (startsWord after && (operatorAt after).isNone)
  else return false

def declaration? (rules : Rules) : Reader (Option Node) := do
  if (← seesWord "var") || (← seesWord "const") || (← seesLexicalDeclaration) then some <$> declaration rules
  else if ← seesFunctionDeclaration then some <$> functionDeclaration rules
  else if ← seesClassDeclaration then some <$> classFrom rules .classDeclaration (← here) []
  else return none

def source : Reader Node := lexeme .string Lexeme.string?

def fromClause : Reader Node := do
  keyword "from"
  source

def exportedName : Reader Node := do
  match ← peek with
  | '"' :: _ => source
  | '\'' :: _ => source
  | _ => word .identifier

def specifier (kind : Kind) : Reader Node := do
  let name ← exportedName
  if ← keyword? "as" then node kind name.start [name, ← exportedName]
  else node kind name.start [name]

def specifiers (kind entry : Kind) : Reader Node := do
  let start ← here
  symbol "\x7b"
  let list ← slots "\x7d" (specifier entry) (← bound)
  require (!list.gaps || list.items.isEmpty)
  node kind start list.items

def namespaceImport (kind : Kind) : Reader Node := do
  let start ← here
  symbol "*"
  keyword "as"
  node kind start [← exportedName]

def importedNames : Reader Node := do
  if ← sees "*" then namespaceImport .namespaceImport else specifiers .namedImports .importSpecifier

def importClause : Reader Node := do
  let start ← here
  if (← sees "*") || (← sees "\x7b") then node .importClause start [← importedNames]
  else
    let name ← word .identifier
    if ← symbol? "," then node .importClause start [name, ← importedNames]
    else node .importClause start [name]

def importAttribute (rules : Rules) : Reader (List Node) := do
  let start ← here
  if ← keyword? "with" then return [← node .importAttribute start [← object rules]] else return []

def importParts : Reader (List Node) := do
  if (← sees "'") || (← sees "\"") then return [← source] else return [← importClause, ← fromClause]

def importStatement (rules : Rules) : Reader Node := do
  let start ← here
  keyword "import"
  let parts ← importParts
  let extra ← importAttribute rules
  semicolon false
  node .importStatement start (parts ++ extra)

def exportOrigin : Reader (List Node) := do
  if ← seesWord "from" then return [← fromClause] else return []

def exportedAll : Reader (List Node) := do
  if Lexeme.wordOf (← peekAfter "*") = "as".toList then return [← namespaceImport .namespaceExport]
  else
    symbol "*"
    return []

def exportStatement (rules : Rules) (start : Nat) (marks : List Node) : Reader Node := do
  keyword "export"
  if ← keyword? "default" then
    match ← declaration? rules with
    | some inner => node .exportStatement start (marks ++ [inner])
    | none =>
      let value ← rules (.expression 0)
      semicolon true
      node .exportStatement start (marks ++ [value])
  else if ← sees "\x7b" then
    require marks.isEmpty
    let clause ← specifiers .exportClause .exportSpecifier
    let origin ← exportOrigin
    semicolon false
    node .exportStatement start (clause :: origin)
  else if ← sees "*" then
    require marks.isEmpty
    let all ← exportedAll
    let origin ← fromClause
    semicolon false
    node .exportStatement start (all ++ [origin])
  else
    match ← declaration? rules with
    | some inner => node .exportStatement start (marks ++ [inner])
    | none => failure

def decorated (rules : Rules) : Reader Node := do
  let start ← here
  let marks ← decorators rules
  if ← seesWord "export" then exportStatement rules start marks
  else if ← seesClassDeclaration then classFrom rules .classDeclaration start marks
  else
    let inner ← classFrom rules .classExpression start marks
    semicolon true
    node .expressionStatement start [inner]

def condition (rules : Rules) : Reader Node := do
  let start ← here
  symbol "("
  let inner ← rules .sequence
  symbol ")"
  node .parenthesizedExpression start [inner]

def ifStatement (rules : Rules) : Reader Node := do
  let start ← here
  keyword "if"
  let test ← condition rules
  let yes ← rules .statement
  let between ← here
  if ← keyword? "else" then
    let no ← rules .statement
    node .ifStatement start [test, yes, ← node .elseClause between [no]]
  else node .ifStatement start [test, yes]

def branchBody (rules : Rules) : Reader (List Node) := do
  many (do
    if (← sees "\x7d") || (← seesWord "case") || (← seesWord "default") then return none
    else some <$> rules .statement) (← bound)

def branch (rules : Rules) : Reader Node := do
  let start ← here
  if ← keyword? "default" then
    symbol ":"
    node .switchDefault start (← branchBody rules)
  else
    keyword "case"
    let value ← rules .sequence
    symbol ":"
    node .switchCase start (value :: (← branchBody rules))

def switchStatement (rules : Rules) : Reader Node := do
  let start ← here
  keyword "switch"
  let value ← condition rules
  let opening ← here
  symbol "\x7b"
  let branches ← many (do if ← sees "\x7d" then return none else some <$> branch rules) (← bound)
  symbol "\x7d"
  node .switchStatement start [value, ← node .switchBody opening branches]

def seesMembership : Reader Bool := do
  return (← seesWord "in") || (← seesWord "of")

/-- What a loop over members assigns to. A name declared with `var` may have a value to start with. -/
def memberTarget (rules : Rules) : Reader (List Node) := do
  if ← keyword? "var" then
    let target ← bindingTarget rules
    if ← seesEquals then
      symbol "="
      return [target, ← rules (.expression (relationLevel + 1))]
    else return [target]
  else if (← seesWord "const") || (← seesLexicalDeclaration) then
    let _ ← word .identifier
    return [← bindingTarget rules]
  else
    let left ← accessOperand rules
    let target := if left.kind = .parenthesizedExpression then some left else left.target?
    match target with
    | some target => return [target]
    | none => failure

def memberHead (rules : Rules) : Reader (List Node) := do
  symbol "("
  let target ← memberTarget rules
  require (← seesMembership)
  let _ ← word .identifier
  let object ← rules .sequence
  symbol ")"
  return target ++ [object]

def emptyStatement : Reader Node := do
  let start ← here
  symbol ";"
  node .emptyStatement start []

def countingClause (rules : Rules) : Reader Node := do
  if ← sees ";" then emptyStatement
  else
    let inner ← rules .sequence
    symbol ";"
    return inner

def countingStart (rules : Rules) : Reader Node := do
  if (← seesWord "var") || (← seesWord "const") || (← seesLexicalDeclaration) then declaration rules
  else countingClause rules

def countingHead (rules : Rules) : Reader (List Node) := do
  symbol "("
  let first ← countingStart rules
  let test ← countingClause rules
  if ← symbol? ")" then return [first, test]
  let step ← rules .sequence
  symbol ")"
  return [first, test, step]

def forStatement (rules : Rules) : Reader Node := do
  let start ← here
  keyword "for"
  if ← keyword? "await" then
    let head ← memberHead rules
    node .forInStatement start (head ++ [← rules .statement])
  else
    let (kind, head) ← (do pure (Kind.forInStatement, ← memberHead rules)) <|>
      (do pure (Kind.forStatement, ← countingHead rules))
    node kind start (head ++ [← rules .statement])

def doStatement (rules : Rules) : Reader Node := do
  let start ← here
  keyword "do"
  let body ← rules .statement
  keyword "while"
  let test ← condition rules
  let whole ← node .doStatement start [body, test]
  unless ← hiddenSemicolon false do
    let _ ← symbol? ";"
  return whole

def tryStatement (rules : Rules) : Reader Node := do
  let start ← here
  keyword "try"
  let body ← block rules
  let handler ← handled
  let last ← finished
  node .tryStatement start ([body] ++ handler ++ last)
where
  caught : Reader (List Node) := do
    if ← symbol? "(" then
      let target ← bindingTarget rules
      symbol ")"
      return [target]
    else return []
  handled : Reader (List Node) := do
    let start ← here
    if ← keyword? "catch" then
      let parameter ← caught
      return [← node .catchClause start (parameter ++ [← block rules])]
    else return []
  finished : Reader (List Node) := do
    let start ← here
    if ← keyword? "finally" then return [← node .finallyClause start [← block rules]] else return []

def jump (text : String) (kind : Kind) : Reader Node := do
  let start ← here
  keyword text
  if ← hiddenSemicolon false then node kind start []
  else if startsWord (← peek) then
    let label ← word .statementLabel
    semicolon false
    node kind start [label]
  else
    symbol ";"
    node kind start []

def returnStatement (rules : Rules) : Reader Node := do
  let start ← here
  keyword "return"
  if ← hiddenSemicolon false then node .returnStatement start []
  else if ← symbol? ";" then node .returnStatement start []
  else
    let value ← rules .sequence
    semicolon true
    node .returnStatement start [value]

def throwStatement (rules : Rules) : Reader Node := do
  let start ← here
  keyword "throw"
  let value ← rules .sequence
  semicolon true
  node .throwStatement start [value]

def guarded (rules : Rules) (text : String) (kind : Kind) : Reader Node := do
  let start ← here
  keyword text
  let test ← condition rules
  node kind start [test, ← rules .statement]

def expressionStatement (rules : Rules) : Reader Node := do
  let inner ← rules .sequence
  semicolon true
  node .expressionStatement inner.start [inner]

def expressionWords : List String :=
  ["this", "super", "true", "false", "null", "undefined", "function", "class", "new", "import", "await", "yield",
   "typeof", "void", "delete"]

def seesLabel : Reader Bool := do
  let text := String.ofList (← peekWord)
  if text.isEmpty || expressionWords.contains text then return false
  return (← peekAfter text).head? == some ':'

def labeledStatement (rules : Rules) : Reader Node := do
  let label ← word .statementLabel
  symbol ":"
  node .labeledStatement label.start [label, ← rules .statement]

/-- A brace at the start of a statement opens a block. A text that is no block may be an object literal, but
inside such a literal that is not tried again. -/
def bracedStatement (rules : Rules) : Reader Node := do
  let c ← get
  block rules <|> (do
    require c.literalStatements
    set { c with literalStatements := false }
    let whole ← expressionStatement rules
    modify fun after => { after with literalStatements := true }
    return whole)

def debuggerStatement : Reader Node := do
  let start ← here
  keyword "debugger"
  semicolon false
  node .debuggerStatement start []

def reserved? (rules : Rules) (text : String) : Option (Reader Node) :=
  match text with
  | "if" => some (ifStatement rules)
  | "switch" => some (switchStatement rules)
  | "for" => some (forStatement rules)
  | "while" => some (guarded rules "while" .whileStatement)
  | "with" => some (guarded rules "with" .withStatement)
  | "do" => some (doStatement rules)
  | "try" => some (tryStatement rules)
  | "break" => some (jump "break" .breakStatement)
  | "continue" => some (jump "continue" .continueStatement)
  | "return" => some (returnStatement rules)
  | "throw" => some (throwStatement rules)
  | "debugger" => some debuggerStatement
  | _ => none

def wordStatement (rules : Rules) : Reader Node := do
  match reserved? rules (String.ofList (← peekWord)) with
  | some statement => statement
  | none =>
    match ← declaration? rules with
    | some inner => return inner
    | none =>
      if ← seesLabel then labeledStatement rules
      else if ← seesWord "export" then exportStatement rules (← here) []
      else if ← seesWord "import" then
        match ← peekAfter "import" with
        | '(' :: _ => expressionStatement rules
        | '.' :: _ => expressionStatement rules
        | _ => importStatement rules
      else expressionStatement rules

def statement (rules : Rules) : Reader Node := do
  match ← peek with
  | '\x7b' :: _ => bracedStatement rules
  | ';' :: _ => emptyStatement
  | '@' :: _ => decorated rules
  | cs => if startsWord cs then wordStatement rules else expressionStatement rules

end ClassLinker.Script.Grammar
