import ClassLinker.Config.Reader
import ClassLinker.Session.Change
import ClassLinker.Session.Transform
import ClassLinker.Workspace.Disk

set_option autoImplicit false

namespace ClassLinker

inductive LogLevel where
  | error | warning | info
deriving DecidableEq, Repr

def LogLevel.number : LogLevel → Nat
  | .error => 1
  | .warning => 2
  | .info => 3

structure LogMessage where
  level : LogLevel
  text : String
deriving DecidableEq, Repr

def LogMessage.toJson (m : LogMessage) : Json :=
  .object [("method", .string "window/logMessage"),
    ("params", .object [("type", .ofNat m.level.number), ("message", .string m.text)])]

structure RpcError where
  code : Int
  message : String
  data : Option Json := none

namespace RpcError

def toJson (e : RpcError) : Json :=
  .object ([("code", .integer e.code), ("message", .string e.message)] ++ e.data.toList.map (fun v => ("data", v)))

def ofProblem (problem : Problem) (file : String) : RpcError where
  code := match problem with
    | .syntaxError .. => -32001
    | .unmappedNamespaces _ => -32002
    | .aliasCycle _ => -32003
    | _ => -32000
  message := problem.message
  data := some (problem.toDiagnostic file).toJson

def notStarted : RpcError := { code := -32004, message := "session has not been started" }

def invalidParams (message : String) : RpcError := { code := -32602, message }

end RpcError

inductive Request where
  | initialise (root : Option String) (options : Json)
  | transform (id code : String)
  | classMap
  | virtualModule
  | missingImports
  | importClosure (className : String)
  | rebuild
  | shutdown

inductive Notification where
  | initialised
  | filesChanged (events : List (String × FileChange))

structure Server where
  workspaceRoot : Option String
  config : Config
  session : Option Session

structure Reply where
  result : Except RpcError Json
  logs : List LogMessage
  server : Server

namespace Server

def name : String := "extjs-import"

def version : String := "0.3.0"

def initial : Server := ⟨none, .default, none⟩

def withWorkspace (root : String) (config : Config) (w : Workspace) : Server where
  workspaceRoot := some root
  config := config
  session := match Session.create root config with
    | .ok s => some (s.discover w).2
    | .error _ => none

def capabilities : Json :=
  .object [
    ("capabilities", .object [
      ("experimental", .object [
        ("extjsImport", .object [
          ("transform", .bool true), ("classMap", .bool true), ("virtualModule", .bool true)])])]),
    ("serverInfo", .object [("name", .string name), ("version", .string version)])]

def summary (r : DiscoveryReport) : String :=
  s!"{r.classes} class(es) in {r.files} file(s), {r.failed.length} failed, {r.missingImports.count} missing import(s)"

def missingLine (className : String) (references : List String) : String :=
  className ++ " requires " ++ ", ".intercalate references

def withSession (s : Server) (f : Session → Except RpcError Json × List LogMessage × Session) : Reply :=
  match s.session with
  | none => ⟨.error .notStarted, [], s⟩
  | some session =>
    let (result, logs, session) := f session
    ⟨result, logs, { s with session := some session }⟩

def initialise (s : Server) (root : Option String) (options : Json) : Reply :=
  let s := { s with workspaceRoot := root }
  match Config.ofJson options with
  | .error problem => ⟨.error (.invalidParams problem.message), [], s⟩
  | .ok config => ⟨.ok capabilities, [], { s with config }⟩

def outcome {α : Type} (file : String) (encode : α → Json) (result : Except Problem α) : Except RpcError Json :=
  match result with
  | .ok value => .ok (encode value)
  | .error problem => .error (.ofProblem problem file)

def transformLogs (id : String) (result : Except Problem (Option TransformOutput)) : List LogMessage :=
  match result with
  | .ok (some output) =>
    if output.diagnostics.isEmpty then [] else [⟨.warning, s!"{id}: {output.diagnostics.length} diagnostic(s)"⟩]
  | _ => []

/-- Answers a request; `w` is what is below the root of the session. -/
def answer (s : Server) (w : Workspace) : Request → Reply
  | .initialise root options => s.initialise root options
  | .transform id code => s.withSession fun session =>
    let (result, session) := session.transform w id code
    (outcome id (fun o => .ofOption (o.map TransformOutput.toJson)) result, transformLogs id result, session)
  | .classMap => s.withSession fun session => (.ok session.snapshot.toJson, [], session)
  | .virtualModule => s.withSession fun session => (.ok (.string session.virtualModule), [], session)
  | .missingImports => s.withSession fun session => (.ok session.missing.toJson, [], session)
  | .importClosure className => s.withSession fun session =>
    (.ok (.ofOption ((session.importClosure w className).map Json.strings)), [], session)
  | .rebuild => s.withSession fun session =>
    let (result, session) := session.discover w
    let logs := match result with
      | .ok report => [⟨.info, "Rebuilt: " ++ summary report⟩]
      | .error _ => []
    (outcome "" DiscoveryReport.toJson result, logs, session)
  | .shutdown => ⟨.ok .null, [], { s with session := none }⟩

def begin (s : Server) (w : Workspace) : List LogMessage × Server :=
  match s.workspaceRoot with
  | none => ([⟨.warning, "extjs-import: no workspace root, nothing to discover"⟩], s)
  | some root =>
    match Session.create root s.config with
    | .error problem => ([⟨.error, problem.message⟩], s)
    | .ok session =>
      let (result, session) := session.discover w
      let logs := match result with
        | .ok report => [⟨.info, "extjs-import initialized! " ++ summary report⟩]
        | .error problem =>
          ⟨.error, problem.message⟩ ::
            session.missing.toList.map fun (className, references) => ⟨.error, missingLine className references⟩
      (logs, { s with session := some session })

def fileChanged (w : Workspace) (state : List LogMessage × Session) (event : String × FileChange) :
    List LogMessage × Session :=
  let (result, session) := state.2.fileChanged w event.1 event.2
  let logs := match result with
    | .ok (some report) => [⟨.info, "Rebuilt: " ++ summary report⟩]
    | .ok none => []
    | .error problem => [⟨.warning, problem.message⟩]
  (state.1 ++ logs, session)

def notice (s : Server) (w : Workspace) : Notification → List LogMessage × Server
  | .initialised => s.begin w
  | .filesChanged events =>
    match s.session with
    | none => ([], s)
    | some session =>
      let (logs, session) := events.foldl (fileChanged w) ([], session)
      (logs, { s with session := some session })

def filesBelowRoot {m : Type → Type} [Monad m] (disk : Disk m) : Option String → m Workspace
  | some root => disk.workspace root
  | none => pure .empty

def request {m : Type → Type} [Monad m] (disk : Disk m) (s : Server) (r : Request) : m Reply := do
  let w ← filesBelowRoot disk (s.session.map (·.root))
  return s.answer w r

def notify {m : Type → Type} [Monad m] (disk : Disk m) (s : Server) (n : Notification) :
    m (List LogMessage × Server) := do
  let root := match n with
    | .initialised => s.workspaceRoot
    | .filesChanged _ => s.session.map (·.root)
  let w ← filesBelowRoot disk root
  return s.notice w n

end Server

end ClassLinker
