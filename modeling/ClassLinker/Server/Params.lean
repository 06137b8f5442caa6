import ClassLinker.Json.Reader
import ClassLinker.Server.Basic
import ClassLinker.Uri

set_option autoImplicit false

namespace ClassLinker.Server

open Json (Fault Read readString readList readOption sortedMembers)

def readStringFields (shape : String) (fields : List String) : Read (List String)
  | .object members => do
    for (name, value) in sortedMembers members do
      if fields.contains name then
        let _ ← readString value
    fields.mapM fun field =>
      match (members.lookup field).bind Json.string? with
      | some s => .ok s
      | none => .error (.missingField field)
  | .array items => do
    let values ← (items.take fields.length).mapM readString
    let plural := if fields.length = 1 then "element" else "elements"
    if values.length < fields.length then
      .error (.invalidLength values.length s!"struct {shape} with {fields.length} {plural}")
    else if fields.length < items.length then .error (.invalidLength items.length "fewer elements in array")
    else return values
  | v => .error (.invalidType v ("struct " ++ shape))

def readTransform : Read Request := fun v => do
  match ← readStringFields "TransformParams" ["id", "code"] v with
  | [id, code] => return .transform id code
  | _ => .error (.missingField "id")

def readClosure : Read Request := fun v => do
  match ← readStringFields "ClosureParams" ["className"] v with
  | [className] => return .importClosure className
  | _ => .error (.missingField "className")

def readUri : Read Uri
  | .string s => match Uri.parse s with
    | .ok u => .ok u
    | .error fault => .error (.refused (fault.message ++ ": " ++ Fault.shownString s))
  | v => .error (.invalidType v "a string representing an URL")

def required {α : Type} (members : List (String × Json)) (name : String) (read : Read α) : Except Fault α :=
  match members.lookup name with
  | some v => read v
  | none => .error (.missingField name)

def optional {α : Type} (members : List (String × Json)) (name : String) (read : Read α) :
    Except Fault (Option α) :=
  match members.lookup name with
  | some v => readOption read v
  | none => .ok none

def readFolder : Read Uri
  | .object members => do
    if let some v := members.lookup "name" then
      let _ ← readString v
    let uri ← required members "uri" readUri
    let _ ← required members "name" readString
    return uri
  | v => .error (.invalidType v "struct WorkspaceFolder")

def readCapabilities : Read Unit
  | .object _ | .array _ => .ok ()
  | v => .error (.invalidType v "struct ClientCapabilities")

/-- The root is given by its own URI, or else by the first folder of the workspace. -/
def readInitialise : Read Request
  | .object members => do
    if let some v := members.lookup "capabilities" then readCapabilities v
    let root ← optional members "rootUri" readUri
    let folders ← optional members "workspaceFolders" (readList readFolder)
    let _ ← required members "capabilities" readCapabilities
    let chosen := root <|> (folders.getD []).head?
    return .initialise (chosen.bind Uri.filePath?) ((members.lookup "initializationOptions").getD .null)
  | v => .error (.invalidType v "struct InitializeParams")

def changeOfNumber? : Int → Option FileChange
  | 1 => some .created
  | 2 => some .changed
  | 3 => some .deleted
  | _ => none

/-- One change; kinds that are unknown and URIs that name no file are passed over. -/
def readEvent : Read (Option (String × FileChange))
  | .object members => do
    let number ← required members "type" fun
      | .integer n =>
        if -2147483648 ≤ n && n ≤ 2147483647 then .ok n else .error (.invalidType (.integer n) "i32")
      | v => .error (.invalidType v "i32")
    let uri ← required members "uri" readUri
    return do
      let change ← changeOfNumber? number
      let path ← uri.filePath?
      return (path, change)
  | v => .error (.invalidType v "struct FileEvent")

def readFilesChanged : Read Notification
  | .object members => do
    let events ← required members "changes" (readList readEvent)
    return .filesChanged (events.filterMap id)
  | v => .error (.invalidType v "struct DidChangeWatchedFilesParams")

def readInitialised : Read Notification
  | .object _ => .ok .initialised
  | .array [] => .ok .initialised
  | v => .error (.invalidType v "struct InitializedParams")

end ClassLinker.Server
