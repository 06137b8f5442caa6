import ClassLinker.Script.Grammar.Literal

set_option autoImplicit false

namespace ClassLinker.Script.Grammar

open Reader

def block (rules : Rules) : Reader Node := do
  let start ← here
  symbol "\x7b"
  let body ← many (do if ← sees "\x7d" then return none else some <$> rules .statement) (← bound)
  symbol "\x7d"
  node .statementBlock start body

/-- The body of a function. A semicolon that is left out after the closing brace belongs to it. -/
def functionBody (rules : Rules) (goesOn : Bool) : Reader Node := do
  let body ← block rules
  let _ ← hiddenSemicolon goesOn
  node .statementBlock body.start body.children

def functionName : Reader (List Node) := do
  if startsWord (← peek) then return [← word .identifier] else return []

def functionFrom (rules : Rules) (start : Nat) : Reader Node := do
  keyword "function"
  let generator ← symbol? "*"
  let name ← functionName
  let parameters ← parameters rules
  let body ← functionBody rules true
  node (if generator then .generatorFunction else .functionExpression) start (name ++ [parameters, body])

/-- Reads the word `text` if it describes the name that follows, and says whether it does. In a class a line
end after the word makes it a name of its own. -/
def modifier (text : String) (inClass : Bool) : Reader Bool := do
  unless ← seesWord text do return false
  let after ← peekAfter text
  let star := after.head? == some '*' && (text == "static" || text == "async")
  unless startsName after || star do return false
  let c ← get
  symbol text
  if inClass && (← seesHiddenSemicolon false) then
    set c
    return false
  return true

def modifiers (inClass : Bool) : Reader Bool := do
  let static ← modifier "static" inClass
  let async ← modifier "async" inClass
  let get ← modifier "get" inClass
  let set ← if get then pure false else modifier "set" inClass
  let star ← if get || set then pure false else symbol? "*"
  return static || async || get || set || star

def methodFrom (rules : Rules) (start : Nat) (before : List Node) (goesOn : Bool) : Reader Node := do
  let parameters ← parameters rules
  let body ← functionBody rules goesOn
  node .methodDefinition start (before ++ [parameters, body])

def objectMember (rules : Rules) : Reader Node := do
  if ← sees "..." then spread rules
  else
    let start ← here
    let marks ← decorators rules
    let modified ← modifiers false
    let name ← propertyName rules
    if ← sees "(" then methodFrom rules start (marks ++ [name]) false
    else
      require (!modified && marks.isEmpty)
      if ← symbol? ":" then node .pair start [name, ← rules (.expression 0)]
      else
        require (name.kind = .propertyIdentifier)
        let short := name.withKind .shorthandProperty
        if ← seesEquals then
          symbol "="
          node .shorthandDefault start [short, ← rules (.expression 0)]
        else return short

def object (rules : Rules) : Reader Node := do
  let start ← here
  symbol "\x7b"
  let list ← slots "\x7d" (objectMember rules) (← bound)
  node .object start list.items

def staticBlock (rules : Rules) : Reader Node := do
  let start ← here
  keyword "static"
  node .staticBlock start [← block rules]

def classMember (rules : Rules) : Reader Node := do
  if (← seesWord "static") && (← peekAfter "static").head? == some '\x7b' then staticBlock rules
  else
    let start ← here
    let marks ← decorators rules
    let _ ← modifiers true
    let name ← propertyName rules
    if ← sees "(" then
      let method ← methodFrom rules start (marks ++ [name]) false
      let _ ← symbol? ";"
      return method
    else if ← seesEquals then
      symbol "="
      let value ← rules (.expression 0)
      let field ← node .fieldDefinition start (marks ++ [name, value])
      semicolon true
      return field
    else
      let field ← node .fieldDefinition start (marks ++ [name])
      semicolon false
      return field

def classMembers (rules : Rules) : Nat → Reader (List Node)
  | 0 => failure
  | n + 1 => do
    if ← symbol? "\x7d" then return []
    if ← symbol? ";" then classMembers rules n
    else
      let member ← classMember rules
      return member :: (← classMembers rules n)

def classBody (rules : Rules) : Reader Node := do
  let start ← here
  symbol "\x7b"
  let members ← classMembers rules (← bound)
  node .classBody start members

def className : Reader (List Node) := do
  if startsWord (← peek) && !(← seesWord "extends") then return [← word .identifier] else return []

def classFrom (rules : Rules) (kind : Kind) (start : Nat) (marks : List Node) : Reader Node := do
  keyword "class"
  let name ← className
  let parent ← heritage
  let body ← classBody rules
  node kind start (marks ++ name ++ parent ++ [body])
where
  heritage : Reader (List Node) := do
    let start ← here
    if ← keyword? "extends" then
      let parent ← rules (.expression 0)
      return [← node .classHeritage start [parent]]
    else return []

end ClassLinker.Script.Grammar
