import ClassLinker.CommandLine
import ClassLinker.Json.Parser
import ClassLinker.Server.Connection

set_option autoImplicit false

namespace ClassLinker

partial def readEntries (directory : String) : IO (List (String × Workspace.Node)) := do
  let place := (← IO.currentDir) / directory
  let mut entries := []
  for entry in ← place.readDir do
    match (← entry.path.metadata).type with
    | .dir => entries := (entry.fileName, .directory (← readEntries entry.path.toString)) :: entries
    | .file =>
      let contents ← try
          pure (Contents.ofBytes (← IO.FS.readBinFile entry.path))
        catch _ => pure .binary
      entries := (entry.fileName, .file contents) :: entries
    | _ => pure ()
  return entries

def readText (path : String) : IO (Except Workspace.Fault String) := do
  let place := (← IO.currentDir) / path
  if ← place.isDir then return .error .isDirectory
  try
    match Contents.ofBytes (← IO.FS.readBinFile place) with
    | .text s => return .ok s
    | .binary => return .error .notText
  catch e =>
    match e with
    | .inappropriateType .. => return .error .notDirectory
    | _ => return .error .missing

def localDisk : Disk IO where
  current := return (← IO.currentDir).toString
  workspace path := do
    if ← ((← IO.currentDir) / path).isDir then return ⟨← readEntries path⟩ else return .empty
  read := readText
  isFile path := do
    let place := (← IO.currentDir) / path
    return (← place.pathExists) && !(← place.isDir)
  canonical? path := do
    try
      return some (← IO.FS.realPath ((← IO.currentDir) / path)).toString
    catch _ => return none

partial def readHeader (input : IO.FS.Stream) (length : Nat) : IO (Option Nat) := do
  let line ← input.getLine
  if line.isEmpty then return none
  let line := line.trimAscii.toString
  if line.isEmpty then return some length
  match line.splitOn ":" with
  | [name, value] =>
    if name.toLower == "content-length" then readHeader input (value.trimAscii.toString.toNat?.getD length)
    else readHeader input length
  | _ => readHeader input length

partial def readBytes (input : IO.FS.Stream) (length : Nat) (done : ByteArray) : IO ByteArray := do
  if length ≤ done.size then return done
  let more ← input.read (USize.ofNat (length - done.size))
  if more.isEmpty then return done
  readBytes input length (done ++ more)

def send (output : IO.FS.Stream) (message : Json) : IO Unit := do
  let body := message.compact
  output.putStr s!"Content-Length: {body.utf8ByteSize}\r\n\r\n{body}"
  output.flush

def logJson (m : LogMessage) : Json :=
  match m.toJson with
  | .object members => .object (("jsonrpc", .string "2.0") :: members)
  | other => other

def incoming? (message : Json) : Option Incoming := do
  let method ← (message.get? "method").bind Json.string?
  return ⟨method, message.get? "params", message.get? "id"⟩

partial def serve (input output : IO.FS.Stream) (c : Connection) : IO Unit := do
  let some length ← readHeader input 0 | return
  let body ← readBytes input length .empty
  if body.size < length then return
  let message := (String.fromUTF8? body).bind fun s => (Json.parse? s).bind incoming?
  match message with
  | none =>
    send output (.object [("jsonrpc", .string "2.0"),
      ("error", (RpcError.toJson { code := -32700, message := "Parse error" })), ("id", .null)])
    serve input output c
  | some message =>
    let turn ← c.receive localDisk message
    for log in turn.logs do
      send output (logJson log)
    if let some response := turn.response.toJson then send output response
    match turn.response with
    | .exited => return
    | _ => serve input output turn.connection

end ClassLinker

open ClassLinker in
def main (args : List String) : IO UInt32 := do
  match ← CommandLine.run localDisk args with
  | none =>
    serve (← IO.getStdin) (← IO.getStdout) .initial
    return 0
  | some outcome =>
    for complaint in outcome.complaints do
      IO.eprintln complaint
    IO.print outcome.output
    return UInt32.ofNat outcome.code
