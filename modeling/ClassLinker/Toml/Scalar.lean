import ClassLinker.Json.Parser

set_option autoImplicit false

namespace ClassLinker.Toml

open Json (Scan hexValue? digitsValue)

def isBlank (c : Char) : Bool := c = ' ' || c = '\t'

def skipBlanks (cs : List Char) : List Char := cs.dropWhile isBlank

def newline? : List Char → Option (List Char)
  | '\n' :: rest => some rest
  | '\r' :: '\n' :: rest => some rest
  | _ => none

def isPlain (c : Char) : Bool := c = '\t' || (32 ≤ c.toNat && c.toNat ≠ 127)

def codePoint? (n : Nat) : Scan Char := fun cs => do
  let values ← (cs.take n).mapM hexValue?
  if values.length ≠ n then none
  let code := values.foldl (fun code value => code * 16 + value) 0
  if code.isValidChar then return (Char.ofNat code, cs.drop n) else none

def escape? : Scan Char
  | 'b' :: rest => some (Char.ofNat 8, rest)
  | 't' :: rest => some ('\t', rest)
  | 'n' :: rest => some ('\n', rest)
  | 'f' :: rest => some (Char.ofNat 12, rest)
  | 'r' :: rest => some ('\r', rest)
  | 'e' :: rest => some (Char.ofNat 27, rest)
  | '"' :: rest => some ('"', rest)
  | '\\' :: rest => some ('\\', rest)
  | 'x' :: rest => codePoint? 2 rest
  | 'u' :: rest => codePoint? 4 rest
  | 'U' :: rest => codePoint? 8 rest
  | _ => none

def lineString (quote : Char) : Nat → List Char → Scan String
  | 0, _, _ => none
  | n + 1, done, cs =>
    match cs with
    | [] => none
    | c :: rest =>
      if c = quote then some (String.ofList done.reverse, rest)
      else if c = '\\' && quote = '"' then do
        let (c, rest) ← escape? rest
        lineString quote n (c :: done) rest
      else if isPlain c then lineString quote n (c :: done) rest
      else none

def isLayout (c : Char) : Bool := isBlank c || c = '\n' || c = '\r'

/-- A string over several lines, after its three opening quotes. It ends with three quotes, before which up to two
more belong to it; a backslash at the end of a line leaves out the line end and the blanks that follow. -/
def blockString (quote : Char) : Nat → List Char → Scan String
  | 0, _, _ => none
  | n + 1, done, cs =>
    let quotes := (cs.takeWhile (· = quote)).length
    if 3 ≤ quotes then
      let taken := min quotes 5
      some (String.ofList (done.reverse ++ List.replicate (taken - 3) quote), cs.drop taken)
    else match newline? cs with
      | some rest => blockString quote n ((cs.take (cs.length - rest.length)).reverse ++ done) rest
      | none =>
        match cs with
        | [] => none
        | c :: rest =>
          if c = '\\' && quote = '"' then
            match newline? (skipBlanks rest) with
            | some rest => blockString quote n done (rest.dropWhile isLayout)
            | none => do
              let (c, rest) ← escape? rest
              blockString quote n (c :: done) rest
          else if isPlain c then blockString quote n (c :: done) rest
          else none

def string? (cs : List Char) : Option (String × List Char) :=
  match cs with
  | quote :: rest =>
    if quote = '"' || quote = '\'' then
      match rest with
      | second :: third :: inner =>
        if second = quote && third = quote then
          blockString quote (inner.length + 1) [] ((newline? inner).getD inner)
        else lineString quote (rest.length + 1) [] rest
      | _ => lineString quote (rest.length + 1) [] rest
    else none
  | [] => none

/-- Removes the underscores between digits; `none` if one stands elsewhere, or other characters do. -/
def digits? (isDigit : Char → Bool) : List Char → Option (List Char)
  | [] => none
  | [c] => if isDigit c then some [c] else none
  | c :: '_' :: rest => if isDigit c then (digits? isDigit rest).map (c :: ·) else none
  | c :: rest => if isDigit c then (digits? isDigit rest).map (c :: ·) else none

def wholeDigits? (cs : List Char) : Option (List Char) := do
  let digits ← digits? Char.isDigit cs
  if digits.head? = some '0' && digits.length ≠ 1 then none else return digits

def inRange (n : Int) : Bool :=
  -170141183460469231731687303715884105728 ≤ n && n ≤ 340282366920938463463374607431768211455

def integer? (n : Int) : Option Json := if inRange n then some (.integer n) else none

def radix? (base : Nat) (cs : List Char) : Option Json := do
  let isDigit (c : Char) : Bool := (hexValue? c).any (· < base)
  let digits ← digits? isDigit cs
  integer? (digits.foldl (fun n c => n * base + (hexValue? c).getD 0) 0 : Nat)

def signed? (cs : List Char) : Bool × List Char :=
  match cs with
  | '+' :: rest => (false, rest)
  | '-' :: rest => (true, rest)
  | rest => (false, rest)

def decimalNumber? (cs : List Char) : Option Json := do
  let (negative, body) := signed? cs
  let isExponent (c : Char) : Bool := c = 'e' || c = 'E'
  let mantissa := body.takeWhile (! isExponent ·)
  let whole := mantissa.takeWhile (· ≠ '.')
  let wholePart ← wholeDigits? whole
  let fraction ← match mantissa.drop whole.length with
    | [] => some none
    | _ :: digits => (digits? Char.isDigit digits).map some
  let power ← match body.drop mantissa.length with
    | [] => some none
    | _ :: rest =>
      let (below, digits) := signed? rest
      (digits? Char.isDigit digits).map fun ds => some (if below then -(digitsValue ds : Int) else digitsValue ds)
  let magnitude : Int := digitsValue (wholePart ++ fraction.getD [])
  let value := if negative then -magnitude else magnitude
  if fraction.isNone && power.isNone then integer? value
  else Json.decimal? value ((fraction.getD []).length - power.getD 0)

def number? (cs : List Char) : Option Json :=
  match cs with
  | '0' :: 'x' :: digits => radix? 16 digits
  | '0' :: 'o' :: digits => radix? 8 digits
  | '0' :: 'b' :: digits => radix? 2 digits
  | cs =>
    if ["inf", "nan"].contains (String.ofList (signed? cs).2) then some .null else decimalNumber? cs

def twoDigits? : Scan Nat
  | a :: b :: rest => if a.isDigit && b.isDigit then some (digitsValue [a, b], rest) else none
  | _ => none

def char? (c : Char) : List Char → Option (List Char)
  | d :: rest => if d = c then some rest else none
  | [] => none

def daysIn (year month : Nat) : Nat :=
  if month = 2 then
    if year % 4 = 0 && (year % 100 ≠ 0 || year % 400 = 0) then 29 else 28
  else if [4, 6, 9, 11].contains month then 30
  else 31

def day? (cs : List Char) : Option (List Char) := do
  let (century, cs) ← twoDigits? cs
  let (year, cs) ← twoDigits? cs
  let cs ← char? '-' cs
  let (month, cs) ← twoDigits? cs
  let cs ← char? '-' cs
  let (day, cs) ← twoDigits? cs
  if 1 ≤ month && month ≤ 12 && 1 ≤ day && day ≤ daysIn (century * 100 + year) month then return cs else none

def time? (cs : List Char) : Option (List Char) := do
  let (hour, cs) ← twoDigits? cs
  let cs ← char? ':' cs
  let (minute, cs) ← twoDigits? cs
  if 23 < hour || 59 < minute then none
  match cs with
  | ':' :: cs =>
    let (second, cs) ← twoDigits? cs
    if 60 < second then none
    match cs with
    | '.' :: fraction =>
      let digits := fraction.takeWhile Char.isDigit
      if digits.isEmpty then none else return fraction.drop digits.length
    | cs => return cs
  | cs => return cs

def zone? (cs : List Char) : Option (List Char) :=
  match cs with
  | [] => some []
  | 'Z' :: rest | 'z' :: rest => some rest
  | sign :: rest => do
    if sign ≠ '+' && sign ≠ '-' then none
    let (hour, cs) ← twoDigits? rest
    let cs ← char? ':' cs
    let (minute, cs) ← twoDigits? cs
    if 23 < hour || 59 < minute then none else return cs

def isMoment (cs : List Char) : Bool :=
  match day? cs with
  | some [] => true
  | some (mark :: clock) =>
    (mark = 'T' || mark = 't' || mark = ' ') && ((time? clock).bind zone?) = some []
  | none => time? cs = some []

def dateMember : String := "$__toml_private_datetime"

def date? (cs : List Char) : Option Json :=
  if isMoment cs then some (.object [(dateMember, .string (String.ofList cs))]) else none

def isScalarChar (c : Char) : Bool := c.isAlphanum || c = '+' || c = '-' || c = '_' || c = '.' || c = ':'

/-- The characters of an unquoted value. One blank may part a day from a time. -/
def scalarText (cs : List Char) : List Char × List Char :=
  let first := cs.takeWhile isScalarChar
  let rest := cs.drop first.length
  match day? first, rest with
  | some [], ' ' :: next :: more =>
    if next.isDigit then
      let clock := (next :: more).takeWhile isScalarChar
      (first ++ ' ' :: clock, (next :: more).drop clock.length)
    else (first, rest)
  | _, _ => (first, rest)

def scalar? (cs : List Char) : Option (Json × List Char) := do
  let (text, rest) := scalarText cs
  if text = ['t', 'r', 'u', 'e'] then return (.bool true, rest)
  if text = ['f', 'a', 'l', 's', 'e'] then return (.bool false, rest)
  match date? text with
  | some date => return (date, rest)
  | none => return (← number? text, rest)

end ClassLinker.Toml
