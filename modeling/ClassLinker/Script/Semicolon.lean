import ClassLinker.Script.Cursor

set_option autoImplicit false

/-!
Where a statement may end without a semicolon: before a closing brace, at the end of the text, and at a line
end unless the next line goes on with the statement.
-/

namespace ClassLinker.Script

def isSpace (c : Char) : Bool :=
  c = ' ' || (9 ≤ c.toNat && c.toNat ≤ 13)

inductive Passage where
  | slash
  | sameLine
  | passed
deriving DecidableEq

/-- Passes blanks and comments. Unless `through`, stops after a block comment. -/
def passGap (through : Bool) : Gap → Bool → List Char → Passage × List Char
  | _, _, [] => (.passed, [])
  | .lineComment, seen, c :: rest =>
    if c = '\n' then passGap through .blanks seen rest
    else if isLineEnd c then (.passed, c :: rest)
    else passGap through .lineComment seen rest
  | .blockComment, seen, '*' :: '/' :: rest =>
    if !through && rest.head? != some '/' then (if seen then .passed else .sameLine, rest)
    else passGap through .blanks seen rest
  | .blockComment, seen, c :: rest => passGap through .blockComment (seen || isLineEnd c) rest
  | .blanks, seen, '/' :: '/' :: rest => passGap through .lineComment seen rest
  | .blanks, seen, '/' :: '*' :: rest => passGap through .blockComment seen rest
  | .blanks, _, '/' :: rest => (.slash, rest)
  | .blanks, seen, c :: rest =>
    if isSpace c then passGap through .blanks seen rest else (.passed, c :: rest)

def beginsStatement : List Char → Bool
  | [] => true
  | '.' :: rest => rest.head?.any Char.isDigit
  | '+' :: rest => rest.head? == some '+'
  | '-' :: rest => rest.head? == some '-'
  | '!' :: rest => rest.head? != some '='
  | 'i' :: 'n' :: rest =>
    if !rest.head?.any Char.isAlpha then false
    else match "stanceof".toList.isPrefixOf? rest with
      | some after => after.head?.any Char.isAlpha
      | none => true
  | c :: _ => !"`,:;*%><=[(?^|&/".toList.contains c

/-- Whether a statement may end at a character that opens no comment; `later` tells whether it may end after it. -/
def endsAt (later : List Char → Bool) : List Char → Bool
  | [] => false
  | c :: rest =>
    if c = '}' then true
    else if isLineEnd c then
      match passGap true .blanks false rest with
      | (.slash, _) => false
      | (_, line) => beginsStatement line
    else if isSpace c then later rest
    else false

/-- Whether a statement may end right here. `goesOn` tells that an operator could follow. -/
def endsHere (goesOn : Bool) : Nat → List Char → Bool
  | 0, _ => false
  | _, [] => true
  | n + 1, '/' :: rest =>
    match passGap false .blanks false ('/' :: rest) with
    | (.slash, _) => false
    | (passage, after) =>
      if passage = .passed && !goesOn && after.head? != some ',' && after.head? != some '=' then true
      else endsAt (endsHere goesOn n) after
  | n + 1, c :: rest => endsAt (endsHere goesOn n) (c :: rest)

def commentLength : List Char → Nat
  | '*' :: '/' :: _ => 2
  | _ :: rest => commentLength rest + 1
  | [] => 0

namespace Cursor

def pastComment? (c : Cursor) : Option Cursor :=
  let p := c.advanceWhile isBlank
  match p.rest with
  | '/' :: '/' :: _ => some (c.moveTo (p.advanceWhile fun x => !(isLineEnd x || x = '\r')))
  | '/' :: '*' :: rest => if closesComment rest then some (c.moveTo (p.advance (commentLength rest + 2))) else none
  | _ => none

def hiddenSemicolon? (goesOn : Bool) : Nat → Cursor → Option Cursor
  | 0, _ => none
  | n + 1, c =>
    if endsHere goesOn c.limit c.rest then some c
    else c.pastComment?.bind (hiddenSemicolon? goesOn n)

end Cursor

namespace Reader

def hiddenSemicolon (goesOn : Bool) : Reader Bool := do
  let c ← get
  match c.hiddenSemicolon? goesOn c.limit with
  | some c => set c; return true
  | none => return false

def seesHiddenSemicolon (goesOn : Bool) : Reader Bool := do
  let c ← get
  return (c.hiddenSemicolon? goesOn c.limit).isSome

def semicolon (goesOn : Bool) : Reader Unit := do
  unless ← hiddenSemicolon goesOn do
    symbol ";"

end Reader

end ClassLinker.Script
