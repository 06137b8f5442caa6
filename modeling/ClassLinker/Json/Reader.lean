import ClassLinker.Json.Printer

set_option autoImplicit false

namespace ClassLinker.Json

inductive Fault where
  | invalidType (got : Json) (want : String)
  | unknownVariant (got : String) (known : List String)
  | notSingle
  | missingField (name : String)
  | invalidLength (length : Nat) (want : String)
  | refused (reason : String)

namespace Fault

def isHidden (c : Char) : Bool :=
  let n := c.toNat
  n < 32 || (127 ≤ n && n < 160) || n = 0xAD || (0x300 ≤ n && n ≤ 0x36F) || (0x200B ≤ n && n ≤ 0x200F) ||
    (0x2028 ≤ n && n ≤ 0x202E) || (0x2060 ≤ n && n ≤ 0x206F) || (0xE000 ≤ n && n ≤ 0xF8FF) || n = 0xFEFF ||
    (0xFFF0 ≤ n && n ≤ 0xFFFB) || n = 0xFFFE || n = 0xFFFF

def shownChar (c : Char) : List Char :=
  match c with
  | '"' => ['\\', '"']
  | '\\' => ['\\', '\\']
  | '\n' => ['\\', 'n']
  | '\r' => ['\\', 'r']
  | '\t' => ['\\', 't']
  | c =>
    if c.toNat = 0 then ['\\', '0']
    else if isHidden c then '\\' :: 'u' :: '\x7b' :: Nat.toDigits 16 c.toNat ++ ['\x7d']
    else [c]

def shownString (s : String) : String :=
  String.ofList ('"' :: s.toList.flatMap shownChar ++ ['"'])

def shown : Json → String
  | .null => "null"
  | .bool b => if b then "boolean `true`" else "boolean `false`"
  | .integer n => "integer `" ++ String.ofList (integerText n) ++ "`"
  | .decimal digits places => "floating point `" ++ String.ofList (decimalText digits places) ++ "`"
  | .string s => "string " ++ shownString s
  | .array _ => "sequence"
  | .object _ => "map"

def backticked (s : String) : String := "`" ++ s ++ "`"

def expectedVariants : List String → String
  | [] => "there are no variants"
  | [a] => "expected " ++ backticked a
  | [a, b] => "expected " ++ backticked a ++ " or " ++ backticked b
  | many => "expected one of " ++ ", ".intercalate (many.map backticked)

def message : Fault → String
  | .invalidType got want => "invalid type: " ++ shown got ++ ", expected " ++ want
  | .unknownVariant got known => "unknown variant " ++ backticked got ++ ", " ++ expectedVariants known
  | .notSingle => "invalid value: map, expected map with a single key"
  | .missingField name => "missing field " ++ backticked name
  | .invalidLength length want => "invalid length " ++ toString length ++ ", expected " ++ want
  | .refused reason => reason

end Fault

abbrev Read (α : Type) := Json → Except Fault α

def readBool : Read Bool
  | .bool b => .ok b
  | v => .error (.invalidType v "a boolean")

def readString : Read String
  | .string s => .ok s
  | v => .error (.invalidType v "a string")

def readList {α : Type} (item : Read α) : Read (List α)
  | .array items => items.mapM item
  | v => .error (.invalidType v "a sequence")

def readOption {α : Type} (read : Read α) : Read (Option α)
  | .null => .ok none
  | v => (read v).map some

def sortedMembers (members : List (String × Json)) : List (String × Json) :=
  members.mergeSort fun a b => a.1 ≤ b.1

/-- How a choice without contents is written as the value of a member. -/
abbrev Unitary := Json → Except Fault Unit

def nullUnit : Unitary
  | .null => .ok ()
  | v => .error (.invalidType v "unit")

def readChoice {α : Type} (unit : Unitary) (known : List (String × α)) : Read α
  | .string s => named s
  | .object [(name, value)] => do
    let choice ← named name
    unit value
    return choice
  | .object _ => .error .notSingle
  | v => .error (.invalidType v "string or map")
where
  named (s : String) : Except Fault α :=
    match known.lookup s with
    | some choice => .ok choice
    | none => .error (.unknownVariant s (known.map (·.1)))

end ClassLinker.Json
