import ClassLinker.Json.Basic

set_option autoImplicit false

namespace ClassLinker.Json

abbrev Scan (α : Type) := List Char → Option (α × List Char)

def isSpace (c : Char) : Bool := c = ' ' || c = '\n' || c = '\r' || c = '\t'

def skipSpace (cs : List Char) : List Char := cs.dropWhile isSpace

def hexValue? (c : Char) : Option Nat :=
  if c.isDigit then some (c.toNat - 48)
  else if 'a' ≤ c && c ≤ 'f' then some (c.toNat - 87)
  else if 'A' ≤ c && c ≤ 'F' then some (c.toNat - 55)
  else none

def unit? : Scan Nat
  | a :: b :: c :: d :: rest => do
    let a ← hexValue? a
    let b ← hexValue? b
    let c ← hexValue? c
    let d ← hexValue? d
    return (a * 4096 + b * 256 + c * 16 + d, rest)
  | _ => none

def escape? : Scan Char
  | 'n' :: rest => some ('\n', rest)
  | 't' :: rest => some ('\t', rest)
  | 'r' :: rest => some ('\r', rest)
  | 'b' :: rest => some (Char.ofNat 8, rest)
  | 'f' :: rest => some (Char.ofNat 12, rest)
  | '"' :: rest => some ('"', rest)
  | '\\' :: rest => some ('\\', rest)
  | '/' :: rest => some ('/', rest)
  | 'u' :: rest => do
    let (high, after) ← unit? rest
    if 0xD800 ≤ high && high < 0xDC00 then
      match after with
      | '\\' :: 'u' :: more => do
        let (low, after) ← unit? more
        if 0xDC00 ≤ low && low < 0xE000 then
          return (Char.ofNat (0x10000 + (high - 0xD800) * 1024 + (low - 0xDC00)), after)
        else none
      | _ => none
    else if 0xDC00 ≤ high && high < 0xE000 then none
    else return (Char.ofNat high, after)
  | _ => none

def stringBody : Nat → List Char → Scan String
  | 0, _, _ => none
  | n + 1, done, cs =>
    match cs with
    | '"' :: rest => some (String.ofList done.reverse, rest)
    | '\\' :: rest => do
      let (c, rest) ← escape? rest
      stringBody n (c :: done) rest
    | c :: rest => if c.toNat < 32 then none else stringBody n (c :: done) rest
    | [] => none

def stringFrom? : Scan String
  | '"' :: rest => stringBody (rest.length + 1) [] rest
  | _ => none

def digitsValue (cs : List Char) : Nat :=
  cs.foldl (fun n c => n * 10 + (c.toNat - 48)) 0

def exponent? : Scan Int
  | e :: rest =>
    if e = 'e' || e = 'E' then
      let (sign, rest) : Int × List Char := match rest with
        | '-' :: rest => (-1, rest)
        | '+' :: rest => (1, rest)
        | rest => (1, rest)
      let digits := rest.takeWhile Char.isDigit
      if digits.isEmpty then none else some (sign * digitsValue digits, rest.drop digits.length)
    else some (0, e :: rest)
  | [] => some (0, [])

def isWhole (n : Int) : Bool := -9223372036854775808 ≤ n && n ≤ 18446744073709551615

def decimalLimit : Nat := Nat.pow 2 1024 - Nat.pow 2 970

/-- `value` divided by ten to the power of `shift`. A number at the limit is refused, and one that is too small to
be told from zero is zero. -/
def decimal? (value shift : Int) : Option Json :=
  let size : Int := (Nat.repr value.natAbs).length
  if value = 0 || size - shift < -330 then some (.decimal 0 0)
  else if 309 < size - shift then none
  else
    let scaled := value * Nat.pow 10 (-shift).toNat
    if decimalLimit * Nat.pow 10 shift.toNat ≤ scaled.natAbs then none else some (.decimal scaled shift.toNat)

def number? (cs : List Char) : Option (Json × List Char) := do
  let (negative, body) := match cs with
    | '-' :: rest => (true, rest)
    | rest => (false, rest)
  let whole := body.takeWhile Char.isDigit
  if whole.isEmpty || (whole.head? = some '0' && whole.length ≠ 1) then none
  let rest := body.drop whole.length
  let fraction := match rest with
    | '.' :: rest => some (rest.takeWhile Char.isDigit)
    | _ => none
  if fraction = some [] then none
  let places := (fraction.getD []).length
  let rest := if fraction.isSome then rest.drop (places + 1) else rest
  let (power, after) ← exponent? rest
  let magnitude : Int := digitsValue (whole ++ fraction.getD [])
  let value := if negative then -magnitude else magnitude
  if fraction.isNone && after.length = rest.length && isWhole value then
    return (.integer value, after)
  return (← decimal? value (places - power), after)

def literal? (text : String) (value : Json) (cs : List Char) : Option (Json × List Char) :=
  (text.toList.isPrefixOf? cs).map fun rest => (value, rest)

def itemsFrom (item : Scan Json) : Nat → Scan (List Json)
  | 0, _ => none
  | n + 1, cs => do
    let (first, rest) ← item (skipSpace cs)
    match skipSpace rest with
    | ']' :: rest => return ([first], rest)
    | ',' :: rest => do
      let (more, rest) ← itemsFrom item n rest
      return (first :: more, rest)
    | _ => none

def membersFrom (item : Scan Json) : Nat → List (String × Json) → Scan (List (String × Json))
  | 0, _, _ => none
  | n + 1, done, cs => do
    let (name, rest) ← stringFrom? (skipSpace cs)
    match skipSpace rest with
    | ':' :: rest => do
      let (value, rest) ← item (skipSpace rest)
      let done := setMember name value done
      match skipSpace rest with
      | '\x7d' :: rest => return (done, rest)
      | ',' :: rest => membersFrom item n done rest
      | _ => none
    | _ => none

def value? : Nat → Scan Json
  | 0, _ => none
  | n + 1, cs =>
    match cs with
    | '"' :: _ => (stringFrom? cs).map fun (s, rest) => (.string s, rest)
    | '[' :: rest =>
      match skipSpace rest with
      | ']' :: rest => some (.array [], rest)
      | _ => (itemsFrom (value? n) (rest.length + 1) rest).map fun (items, rest) => (.array items, rest)
    | '\x7b' :: rest =>
      match skipSpace rest with
      | '\x7d' :: rest => some (.object [], rest)
      | _ => (membersFrom (value? n) (rest.length + 1) [] rest).map fun (members, rest) => (.object members, rest)
    | 't' :: _ => literal? "true" (.bool true) cs
    | 'f' :: _ => literal? "false" (.bool false) cs
    | 'n' :: _ => literal? "null" .null cs
    | _ => number? cs

def parse? (text : String) : Option Json := do
  let cs := text.toList
  let (value, rest) ← value? (cs.length + 1) (skipSpace cs)
  if (skipSpace rest).isEmpty then some value else none

end ClassLinker.Json
