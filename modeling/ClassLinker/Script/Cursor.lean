import ClassLinker.Text.Parts
import ClassLinker.Script.Node
import ClassLinker.Script.Point

set_option autoImplicit false

namespace ClassLinker.Script

structure Cursor extends Point where
  limit : Nat
  literalStatements : Bool

namespace Cursor

def ofSource (source : List Char) : Cursor :=
  { rest := source, offset := 0, limit := source.length + 1, literalStatements := true }

def moveTo (c : Cursor) (p : Point) : Cursor := { c with toPoint := p }

def pass (c : Cursor) (n : Nat) : Cursor := c.moveTo (c.advance n)

end Cursor

def isBlank (c : Char) : Bool :=
  Text.isWhite c || c.toNat = 0x200B || c.toNat = 0x2060 || c.toNat = 0xFEFF

def isLineEnd (c : Char) : Bool :=
  c = '\n' || c.toNat = 0x2028 || c.toNat = 0x2029

def closesComment : List Char → Bool
  | '*' :: '/' :: _ => true
  | _ :: rest => closesComment rest
  | [] => false

inductive Gap where
  | blanks | lineComment | blockComment
deriving DecidableEq

def skipGap : Gap → Nat → List Char → List Char × Nat
  | _, n, [] => ([], n)
  | .lineComment, n, c :: rest =>
    if isLineEnd c || c = '\r' then skipGap .blanks (n + c.utf8Size) rest
    else skipGap .lineComment (n + c.utf8Size) rest
  | .blockComment, n, '*' :: '/' :: rest => skipGap .blanks (n + 2) rest
  | .blockComment, n, c :: rest => skipGap .blockComment (n + c.utf8Size) rest
  | .blanks, n, '/' :: '/' :: rest => skipGap .lineComment (n + 2) rest
  | .blanks, n, '/' :: '*' :: rest =>
    if closesComment rest then skipGap .blockComment (n + 2) rest else ('/' :: '*' :: rest, n)
  | .blanks, n, c :: rest =>
    if isBlank c then skipGap .blanks (n + c.utf8Size) rest else (c :: rest, n)

def Cursor.skip (c : Cursor) : Cursor :=
  let (rest, size) := skipGap .blanks 0 c.rest
  c.moveTo ⟨rest, c.offset + size⟩

/-- Reads a part of a source, or finds that the source does not have it here. -/
abbrev Reader := StateT Cursor Option

namespace Reader

def peek : Reader (List Char) := do
  let c ← get
  return c.skip.rest

def here : Reader Nat := do
  let c ← get
  return c.skip.offset

def behind : Reader Nat := do
  let c ← get
  return c.offset

def sees (text : String) : Reader Bool := do
  let cs ← peek
  return text.toList.isPrefixOf cs

def symbol (text : String) : Reader Unit := do
  let c ← get
  let start := c.skip
  if text.toList.isPrefixOf start.rest then set (start.pass text.length) else failure

def symbol? (text : String) : Reader Bool := do
  if ← sees text then
    symbol text
    return true
  else
    return false

def require (condition : Bool) : Reader Unit :=
  if condition then pure () else failure

def lexeme (kind : Kind) (recognise : Point → Option Point) : Reader Node := do
  let c ← get
  let start := c.skip
  match recognise start.toPoint with
  | some p =>
    set (start.moveTo p)
    return .mk kind start.offset p.offset []
  | none => failure

def ahead {α : Type} (reader : Reader α) : Reader α := do
  let c ← get
  let answer ← reader
  set c
  return answer

def many (item : Reader (Option Node)) : Nat → Reader (List Node)
  | 0 => failure
  | n + 1 => do
    match ← item with
    | none => return []
    | some x => return x :: (← many item n)

/-- More than the number of tokens that are left. -/
def bound : Reader Nat := do
  let c ← get
  return c.limit

def node (kind : Kind) (start : Nat) (children : List Node) : Reader Node := do
  return .mk kind start (← behind) children

end Reader

end ClassLinker.Script
