import ClassLinker.Json.Basic

set_option autoImplicit false

namespace ClassLinker.Toml

inductive Origin where
  | implied
  | header
  | dotted
deriving DecidableEq, Repr

inductive Entry where
  | value (v : Json)
  | table (origin : Origin) (members : List (String × Entry))
  | tables (newest : List (String × Entry)) (older : List (List (String × Entry)))

abbrev Section := List (String × Entry)

namespace Section

def set (name : String) (entry : Entry) : Section → Section
  | [] => [(name, entry)]
  | (key, old) :: rest => if key = name then (key, entry) :: rest else (key, old) :: set name entry rest

def modifyAt (f : Section → Option Section) : List String → Section → Option Section
  | [], s => f s
  | name :: path, s =>
    match s.lookup name with
    | none => do return s.set name (.table .implied (← modifyAt f path []))
    | some (.table origin members) => do return s.set name (.table origin (← modifyAt f path members))
    | some (.tables newest older) => do return s.set name (.tables (← modifyAt f path newest) older)
    | some (.value _) => none

/-- Adds a value under a key with dots. `own` tells whether the table may take values itself: one that was made for
other purposes takes only further tables. -/
def assign (value : Json) : List String → Bool → Section → Option Section
  | [], _, _ => none
  | [name], own, s => if own && (s.lookup name).isNone then some (s ++ [(name, .value value)]) else none
  | name :: path, _, s =>
    match s.lookup name with
    | none => do return s ++ [(name, .table .dotted (← assign value path true []))]
    | some (.table .dotted members) => do return s.set name (.table .dotted (← assign value path true members))
    | some (.table .implied members) => do return s.set name (.table .implied (← assign value path false members))
    | some (.tables newest older) => do return s.set name (.tables (← assign value path false newest) older)
    | some _ => none

def openTable (name : String) (s : Section) : Option Section :=
  match s.lookup name with
  | none => some (s ++ [(name, .table .header [])])
  | some (.table .implied members) => some (s.set name (.table .header members))
  | some _ => none

def openItem (name : String) (s : Section) : Option Section :=
  match s.lookup name with
  | none => some (s ++ [(name, .tables [] [])])
  | some (.tables newest older) => some (s.set name (.tables [] (newest :: older)))
  | some _ => none

end Section

mutual

def Entry.toJson : Entry → Json
  | .value v => v
  | .table _ members => .object (membersJson members)
  | .tables newest older => .array (tablesJson older [.object (membersJson newest)])

def membersJson : List (String × Entry) → List (String × Json)
  | [] => []
  | (name, entry) :: rest => (name, entry.toJson) :: membersJson rest

def tablesJson : List (List (String × Entry)) → List Json → List Json
  | [], after => after
  | members :: older, after => tablesJson older (.object (membersJson members) :: after)

end

def Section.toJson (s : Section) : Json := .object (membersJson s)

end ClassLinker.Toml
