import ClassLinker.Server.Params

set_option autoImplicit false

namespace ClassLinker

inductive Phase where
  | fresh
  | ready
  | shutDown
  | exited
deriving DecidableEq, Repr

structure Connection where
  phase : Phase
  server : Server

structure Incoming where
  method : String
  params : Option Json
  id : Option Json

inductive Response where
  | none
  | answer (id : Json) (result : Except RpcError Json)
  | exited

def Response.toJson : Response → Option Json
  | .none | .exited => Option.none
  | .answer id (.ok value) => some (.object [("jsonrpc", .string "2.0"), ("result", value), ("id", id)])
  | .answer id (.error e) => some (.object [("jsonrpc", .string "2.0"), ("error", e.toJson), ("id", id)])

namespace RpcError

def notInitialised : RpcError := { code := -32002, message := "Server not initialized" }

def invalidRequest : RpcError := { code := -32600, message := "Invalid request" }

def methodNotFound (data : Option Json) : RpcError := { code := -32601, message := "Method not found", data }

end RpcError

inductive Method where
  | initialise
  | shutdown
  | exit
  | cancel
  | request (read : Option Json → Except RpcError Request)
  | notification (read : Option Json → Except RpcError Notification)
  | otherRequest
  | otherNotification

namespace Method

def withParams {α : Type} (read : Json.Read α) (params : Option Json) : Except RpcError α :=
  match params with
  | none => .error (.invalidParams "Missing params field")
  | some v => match read v with
    | .ok value => .ok value
    | .error fault => .error (.invalidParams fault.message)

def withoutParams {α : Type} (value : α) (params : Option Json) : Except RpcError α :=
  match params with
  | none => .ok value
  | some v => .error (.invalidParams ("Unexpected params: " ++ v.compact))

def otherRequests : List String :=
  ["textDocument/willSaveWaitUntil", "textDocument/declaration", "textDocument/definition",
   "textDocument/typeDefinition", "textDocument/implementation", "textDocument/references",
   "textDocument/prepareCallHierarchy", "callHierarchy/incomingCalls", "callHierarchy/outgoingCalls",
   "textDocument/prepareTypeHierarchy", "typeHierarchy/supertypes", "typeHierarchy/subtypes",
   "textDocument/documentHighlight", "textDocument/documentLink", "documentLink/resolve", "textDocument/hover",
   "textDocument/codeLens", "codeLens/resolve", "textDocument/foldingRange", "textDocument/selectionRange",
   "textDocument/documentSymbol", "textDocument/semanticTokens/full", "textDocument/semanticTokens/full/delta",
   "textDocument/semanticTokens/range", "textDocument/inlineValue", "textDocument/inlayHint", "inlayHint/resolve",
   "textDocument/moniker", "textDocument/completion", "completionItem/resolve", "textDocument/diagnostic",
   "workspace/diagnostic", "textDocument/signatureHelp", "textDocument/codeAction", "codeAction/resolve",
   "textDocument/documentColor", "textDocument/colorPresentation", "textDocument/formatting",
   "textDocument/rangeFormatting", "textDocument/onTypeFormatting", "textDocument/rename",
   "textDocument/prepareRename", "textDocument/linkedEditingRange", "workspace/symbol", "workspaceSymbol/resolve",
   "workspace/willCreateFiles", "workspace/willRenameFiles", "workspace/willDeleteFiles",
   "workspace/executeCommand"]

def otherNotifications : List String :=
  ["textDocument/didOpen", "textDocument/didChange", "textDocument/willSave", "textDocument/didSave",
   "textDocument/didClose", "workspace/didChangeConfiguration", "workspace/didChangeWorkspaceFolders",
   "workspace/didCreateFiles", "workspace/didRenameFiles", "workspace/didDeleteFiles"]

def ofName? (name : String) : Option Method :=
  match name with
  | "initialize" => some .initialise
  | "shutdown" => some .shutdown
  | "exit" => some .exit
  | "$/cancelRequest" => some .cancel
  | "initialized" => some (.notification (withParams Server.readInitialised))
  | "workspace/didChangeWatchedFiles" => some (.notification (withParams Server.readFilesChanged))
  | "extjs/transform" => some (.request (withParams Server.readTransform))
  | "extjs/classMap" => some (.request (withoutParams .classMap))
  | "extjs/virtualModule" => some (.request (withoutParams .virtualModule))
  | "extjs/missingImports" => some (.request (withoutParams .missingImports))
  | "extjs/importClosure" => some (.request (withParams Server.readClosure))
  | "extjs/rebuild" => some (.request (withoutParams .rebuild))
  | other =>
    if otherRequests.contains other then some .otherRequest
    else if otherNotifications.contains other then some .otherNotification
    else none

end Method

namespace Connection

def initial : Connection := ⟨.fresh, .initial⟩

structure Turn where
  response : Response
  logs : List LogMessage
  connection : Connection

def refuse (c : Connection) (id : Option Json) (e : RpcError) : Turn :=
  ⟨match id with
    | some id => .answer id (.error e)
    | none => .none, [], c⟩

def silent (c : Connection) : Turn := ⟨.none, [], c⟩

def phaseError (c : Connection) : RpcError :=
  match c.phase with
  | .fresh => .notInitialised
  | _ => .invalidRequest

variable {m : Type → Type} [Monad m]

def ask (disk : Disk m) (c : Connection) (id : Json) (r : Request) : m Turn := do
  let reply ← c.server.request disk r
  return ⟨.answer id reply.result, reply.logs, { c with server := reply.server }⟩

def initialise (disk : Disk m) (c : Connection) (msg : Incoming) : m Turn :=
  match c.phase, msg.id with
  | .fresh, none => pure c.silent
  | .fresh, some id =>
    match Method.withParams Server.readInitialise msg.params with
    | .error e => pure (c.refuse id e)
    | .ok r => do
      let turn ← c.ask disk id r
      match turn.response with
      | .answer _ (.ok _) => return { turn with connection := { turn.connection with phase := .ready } }
      | _ => return turn
  | _, id => pure (c.refuse id .invalidRequest)

def shutdown (disk : Disk m) (c : Connection) (msg : Incoming) : m Turn :=
  if c.phase = .ready then
    let c := { c with phase := .shutDown }
    match msg.id with
    | none => pure c.silent
    | some id =>
      match Method.withoutParams Request.shutdown msg.params with
      | .error e => pure (c.refuse id e)
      | .ok r => c.ask disk id r
  else pure (c.refuse msg.id c.phaseError)

/-- A message for a method that is open only between initialisation and shutdown. -/
def handle (disk : Disk m) (c : Connection) (msg : Incoming) : Method → m Turn
  | .request read =>
    match msg.id with
    | none => pure c.silent
    | some id =>
      match read msg.params with
      | .error e => pure (c.refuse id e)
      | .ok r => c.ask disk id r
  | .notification read =>
    match msg.id, read msg.params with
    | none, .ok n => do
      let (logs, server) ← c.server.notify disk n
      return ⟨.none, logs, { c with server }⟩
    | _, _ => pure c.silent
  | .otherRequest =>
    match Method.withParams (fun _ => .ok ()) msg.params with
    | .error e => pure (c.refuse msg.id e)
    | .ok () => pure (c.refuse msg.id (.methodNotFound none))
  | _ => pure c.silent

def receive (disk : Disk m) (c : Connection) (msg : Incoming) : m Turn :=
  if c.phase = .exited then pure ⟨.exited, [], c⟩
  else match Method.ofName? msg.method with
    | none =>
      if Text.startsWith ['$', '/'] msg.method.toList then pure c.silent
      else pure (c.refuse msg.id (.methodNotFound (some (.string msg.method))))
    | some .exit => pure (silent { c with phase := .exited })
    | some .cancel => pure c.silent
    | some .initialise => c.initialise disk msg
    | some .shutdown => c.shutdown disk msg
    | some method =>
      if c.phase = .ready then c.handle disk msg method else pure (c.refuse msg.id c.phaseError)

end Connection

end ClassLinker
