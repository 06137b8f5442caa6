import ClassLinker.Json.Basic

set_option autoImplicit false

namespace ClassLinker.Json

def hexDigit (n : Nat) : Char :=
  if n < 10 then Char.ofNat (48 + n) else Char.ofNat (87 + n)

def escaped (c : Char) : List Char :=
  match c with
  | '"' => ['\\', '"']
  | '\\' => ['\\', '\\']
  | '\n' => ['\\', 'n']
  | '\r' => ['\\', 'r']
  | '\t' => ['\\', 't']
  | c =>
    if c.toNat = 8 then ['\\', 'b']
    else if c.toNat = 12 then ['\\', 'f']
    else if c.toNat < 32 then ['\\', 'u', '0', '0', hexDigit (c.toNat / 16), hexDigit (c.toNat % 16)]
    else [c]

def quoted (s : String) : List Char :=
  '"' :: s.toList.flatMap escaped ++ ['"']

def digitsOf (n : Nat) : List Char := (Nat.repr n).toList

def integerText (n : Int) : List Char :=
  if n < 0 then '-' :: digitsOf n.natAbs else digitsOf n.natAbs

def withoutZeros : Nat → Nat → Nat × Nat
  | 0, value => (value, 0)
  | n + 1, value =>
    if value % 10 = 0 then
      let (value, zeros) := withoutZeros n (value / 10)
      (value, zeros + 1)
    else (value, 0)

/-- Decimals are written in full up to sixteen digits before the point and down to five places behind it, always
with a digit after the point; beyond that with an exponent. -/
def decimalText (digits : Int) (places : Nat) : List Char :=
  let sign := if digits < 0 then ['-'] else []
  let magnitude := digits.natAbs
  let (value, zeros) := withoutZeros (digitsOf magnitude).length magnitude
  let shown := digitsOf value
  let size : Int := shown.length
  let power : Int := zeros - places
  let point := size + power
  sign ++
    if magnitude = 0 then ['0', '.', '0']
    else if 0 ≤ power && point ≤ 16 then shown ++ List.replicate power.toNat '0' ++ ['.', '0']
    else if 0 < point && point ≤ 16 then shown.take point.toNat ++ '.' :: shown.drop point.toNat
    else if -5 < point && point ≤ 0 then '0' :: '.' :: List.replicate (-point).toNat '0' ++ shown
    else if shown.length = 1 then shown ++ 'e' :: integerText (point - 1)
    else shown.take 1 ++ '.' :: shown.drop 1 ++ 'e' :: integerText (point - 1)

mutual

def compactText : Json → List Char
  | .null => "null".toList
  | .bool b => if b then "true".toList else "false".toList
  | .integer n => integerText n
  | .decimal digits places => decimalText digits places
  | .string s => quoted s
  | .array items => '[' :: compactItems true items
  | .object members => '\x7b' :: compactMembers true members

def compactItems (first : Bool) : List Json → List Char
  | [] => [']']
  | item :: rest => (if first then [] else [',']) ++ compactText item ++ compactItems false rest

def compactMembers (first : Bool) : List (String × Json) → List Char
  | [] => ['\x7d']
  | (name, value) :: rest =>
    (if first then [] else [',']) ++ quoted name ++ ':' :: compactText value ++ compactMembers false rest

end

def compact (value : Json) : String := String.ofList (compactText value)

def newLine (level : Nat) : List Char := '\n' :: List.replicate (2 * level) ' '

mutual

def prettyText (level : Nat) : Json → List Char
  | .array [] => ['[', ']']
  | .object [] => ['\x7b', '\x7d']
  | .array items => '[' :: prettyItems level true items
  | .object members => '\x7b' :: prettyMembers level true members
  | .null => compactText .null
  | .bool b => compactText (.bool b)
  | .integer n => compactText (.integer n)
  | .decimal digits places => compactText (.decimal digits places)
  | .string s => compactText (.string s)

def prettyItems (level : Nat) (first : Bool) : List Json → List Char
  | [] => newLine level ++ [']']
  | item :: rest =>
    (if first then [] else [',']) ++ newLine (level + 1) ++ prettyText (level + 1) item ++
      prettyItems level false rest

def prettyMembers (level : Nat) (first : Bool) : List (String × Json) → List Char
  | [] => newLine level ++ ['\x7d']
  | (name, value) :: rest =>
    (if first then [] else [',']) ++ newLine (level + 1) ++ quoted name ++ ':' :: ' ' ::
      prettyText (level + 1) value ++ prettyMembers level false rest

end

def pretty (value : Json) : String := String.ofList (prettyText 0 value)

end ClassLinker.Json
