import ClassLinker.Text.Parts
import ClassLinker.Script.Point

set_option autoImplicit false

namespace ClassLinker.Script.Lexeme

def isHex (c : Char) : Bool :=
  c.isDigit || ('a' ≤ c && c ≤ 'f') || ('A' ≤ c && c ≤ 'F')

def isOctal (c : Char) : Bool := '0' ≤ c && c ≤ '7'

def codePoint? (p : Point) : Option Point :=
  match p.rest with
  | '{' :: c :: _ =>
    let q := (p.advance 1).advanceWhile isHex
    if isHex c && q.rest.head? = some '}' then some (q.advance 1) else none
  | a :: b :: c :: d :: _ => if isHex a && isHex b && isHex c && isHex d then some (p.advance 4) else none
  | _ => none

/-- The characters of words: all but controls, blanks and the characters of other lexemes. -/
def isWordPart (c : Char) : Bool :=
  32 < c.toNat && !Text.isWhite c && c.toNat ≠ 0x200B && c.toNat ≠ 0x2060 && c.toNat ≠ 0xFEFF &&
    !":;`\"'@#.,|^&<=>+-*/\\%?!~()[]\x7b\x7d".toList.contains c

def isWordStart (c : Char) : Bool := isWordPart c && !c.isDigit

def wordPart? (p : Point) : Option Point :=
  match p.rest with
  | '\\' :: 'u' :: _ => codePoint? (p.advance 2)
  | c :: _ => if isWordPart c then some (p.advance 1) else none
  | [] => none

def word? (p : Point) : Option Point :=
  if p.rest.head?.any Char.isDigit then none else (wordPart? p).map (Point.repeated wordPart?)

def wordOf (cs : List Char) : List Char :=
  match word? ⟨cs, 0⟩ with
  | some p => Text.takeBytes p.offset cs
  | none => []

def privateName? (p : Point) : Option Point :=
  match p.rest with
  | '#' :: _ => word? (p.advance 1)
  | _ => none

/-- The number of characters that go on a run of digits; single underscores may stand between digits. -/
def moreDigits (digit : Char → Bool) : List Char → Nat
  | '_' :: c :: rest => if digit c then moreDigits digit rest + 2 else 0
  | c :: rest => if digit c then moreDigits digit rest + 1 else 0
  | [] => 0

def digits? (digit : Char → Bool) (p : Point) : Option Point :=
  match p.rest with
  | c :: rest => if digit c then some (p.advance (moreDigits digit rest + 1)) else none
  | [] => none

def exponent? (p : Point) : Option Point :=
  match p.rest with
  | e :: sign :: _ =>
    if e = 'e' || e = 'E' then
      digits? Char.isDigit (p.advance (if sign = '+' || sign = '-' then 2 else 1))
    else none
  | _ => none

def pastExponent (p : Point) : Point := (exponent? p).getD p

def takesFraction : List Char → Bool
  | ['0'] => true
  | '0' :: c :: _ => c.isDigit && c ≠ '0'
  | _ => true

def bigSuffix (p : Point) : Point :=
  if p.rest.head? = some 'n' then p.advance 1 else p

def decimal? (p : Point) : Option Point :=
  (digits? Char.isDigit p).map fun q =>
    if takesFraction (Text.takeBytes (q.offset - p.offset) p.rest) then
      if q.rest.head? = some '.' then
        let fraction := q.advance 1
        pastExponent ((digits? Char.isDigit fraction).getD fraction)
      else (exponent? q).getD (bigSuffix q)
    else bigSuffix q

def radix? (letter : Char) : Option (Char → Bool) :=
  if letter = 'x' || letter = 'X' then some isHex
  else if letter = 'b' || letter = 'B' then some (fun c => c = '0' || c = '1')
  else if letter = 'o' || letter = 'O' then some isOctal
  else none

def number? (p : Point) : Option Point :=
  match p.rest with
  | '.' :: _ => (digits? Char.isDigit (p.advance 1)).map pastExponent
  | '0' :: letter :: _ =>
    match (radix? letter).bind fun digit => digits? digit (p.advance 2) with
    | some q => some (bigSuffix q)
    | none => decimal? p
  | _ => decimal? p

def octalDigits (cs : List Char) : Nat := ((cs.take 3).takeWhile isOctal).length

def escape? (p : Point) : Option Point :=
  match p.rest with
  | '\\' :: 'x' :: a :: b :: _ => if isHex a && isHex b then some (p.advance 4) else none
  | '\\' :: 'x' :: _ => none
  | '\\' :: 'u' :: _ => codePoint? (p.advance 2)
  | '\\' :: c :: rest =>
    if isOctal c then some (p.advance (octalDigits (c :: rest) + 1))
    else if (c = '\r' || c = '?') && rest.head?.any (fun e => e = '\n' || e.toNat = 0x2028 || e.toNat = 0x2029) then
      some (p.advance 3)
    else some (p.advance 2)
  | _ => none

def stringPiece? (quote : Char) (p : Point) : Option Point :=
  match p.rest with
  | [] => none
  | c :: _ =>
    if c = quote || c = '\n' || c = '\r' then none
    else if c = '\\' then escape? p
    else some (p.advance 1)

def quoted? (piece : Char → Point → Option Point) (p : Point) : Option Point :=
  match p.rest with
  | [] => none
  | quote :: _ =>
    if quote = '"' || quote = '\'' then
      let q := (p.advance 1).repeated (piece quote)
      if q.rest.head? = some quote then some (q.advance 1) else none
    else none

def string? : Point → Option Point := quoted? stringPiece?

def templateRun : List Char → Nat
  | '`' :: _ => 0
  | '\\' :: _ => 0
  | '$' :: '\x7b' :: _ => 0
  | _ :: rest => templateRun rest + 1
  | [] => 0

def regexClass : List Char → Option Nat
  | ']' :: _ => some 1
  | '\\' :: c :: rest => if c = '\n' then none else (regexClass rest).map (· + 2)
  | c :: rest => if c = '\n' || c = '\\' then none else (regexClass rest).map (· + 1)
  | [] => none

def regexPiece? (p : Point) : Option Point :=
  match p.rest with
  | '[' :: rest => (regexClass rest).map fun n => p.advance (n + 1)
  | '\\' :: c :: _ => if c = '\n' then none else some (p.advance 2)
  | c :: _ => if c = '/' || c = '\\' || c = '\n' then none else some (p.advance 1)
  | [] => none

def regex? (p : Point) : Option Point :=
  match p.rest with
  | '/' :: '/' :: _ => none
  | '/' :: _ =>
    let q := (p.advance 1).repeated regexPiece?
    if q.rest.head? = some '/' then some ((q.advance 1).advanceWhile fun c => 'a' ≤ c && c ≤ 'z') else none
  | _ => none

def isMarkupPart (c : Char) : Bool := c.isAlphanum || c = '_' || c = '$'

def markupName? (p : Point) : Option Point :=
  let q := p.advanceWhile isMarkupPart
  if q.rest.head? = some '-' && p.rest.head?.any (fun c => isMarkupPart c && !c.isDigit) then
    some (q.advanceWhile fun c => isMarkupPart c || c = '-')
  else word? p

def closedRun? (inside : Char → Bool) (most : Nat) (p : Point) : Option Point :=
  let run := p.rest.takeWhile inside
  let q := p.advance run.length
  if 0 < run.length && run.length ≤ most && q.rest.head? = some ';' then some (q.advance 1) else none

def reference? (p : Point) : Option Point :=
  match p.rest with
  | '&' :: '#' :: x :: _ =>
    if x = 'x' || x = 'X' then closedRun? isHex 6 (p.advance 3) else closedRun? Char.isDigit 5 (p.advance 2)
  | '&' :: _ => closedRun? Char.isAlpha 30 (p.advance 1)
  | _ => none

/-- The length of the text between tags, and whether it counts: blanks that contain a line end do not. -/
def markupText (counts line : Bool) : Nat → List Char → Bool × Nat
  | n, [] => (counts, n)
  | n, c :: rest =>
    if "<>\x7b\x7d&".toList.contains c then (counts, n)
    else
      let blank := c = ' ' || (9 ≤ c.toNat && c.toNat ≤ 13)
      if c = '\n' then markupText counts true (n + 1) rest
      else if line && blank then markupText counts true (n + 1) rest
      else markupText true false (n + 1) rest

def text? (p : Point) : Option Point :=
  match markupText false false 0 p.rest with
  | (true, n) => some (p.advance n)
  | (false, _) => none

def markupStringPiece? (quote : Char) (p : Point) : Option Point :=
  match p.rest with
  | [] => none
  | '&' :: rest =>
    match reference? p with
    | some q => some q
    | none =>
      match rest with
      | c :: _ => if c = '#' || c.isAlpha then none else some (p.advance 2)
      | [] => none
  | c :: _ => if c = quote then none else some (p.advance 1)

def markupString? : Point → Option Point := quoted? markupStringPiece?

end ClassLinker.Script.Lexeme
