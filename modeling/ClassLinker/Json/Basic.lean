set_option autoImplicit false

namespace ClassLinker

inductive Json where
  | null
  | bool (value : Bool)
  | integer (value : Int)
  | decimal (digits : Int) (places : Nat)
  | string (value : String)
  | array (items : List Json)
  | object (members : List (String × Json))
deriving Repr, Inhabited

namespace Json

def ofNat (n : Nat) : Json := .integer n

def strings (items : List String) : Json := .array (items.map .string)

def ofOption (value : Option Json) : Json := value.getD .null

def stringOrNull (value : Option String) : Json := ofOption (value.map .string)

def get? (name : String) : Json → Option Json
  | .object members => members.lookup name
  | _ => none

def string? : Json → Option String
  | .string s => some s
  | _ => none

def bool? : Json → Option Bool
  | .bool b => some b
  | _ => none

def array? : Json → Option (List Json)
  | .array items => some items
  | _ => none

def nat? : Json → Option Nat
  | .integer n => if 0 ≤ n then some n.toNat else none
  | _ => none

def stringItems : Json → List String
  | .array items => items.filterMap string?
  | _ => []

def setMember (name : String) (value : Json) : List (String × Json) → List (String × Json)
  | [] => [(name, value)]
  | (key, old) :: rest => if key = name then (key, value) :: rest else (key, old) :: setMember name value rest

end Json

end ClassLinker
