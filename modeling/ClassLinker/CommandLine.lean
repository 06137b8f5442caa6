import ClassLinker.Server.Basic

set_option autoImplicit false

namespace ClassLinker.CommandLine

inductive Command where
  | serve
  | check
  | transform (file : String)
deriving DecidableEq, Repr

structure Options where
  root : Option String := none
  config : Option String := none
  logLevel : Option String := none
deriving DecidableEq, Repr

structure Invocation where
  options : Options
  command : Command
deriving DecidableEq, Repr

inductive Stop where
  | version
  | help
  | usage (complaint : String)
deriving DecidableEq, Repr

def isFlag (arg : String) : Bool := arg != "-" && Text.startsWith ['-'] arg.toList

def unexpected (arg : String) : Stop := .usage s!"unexpected argument '{arg}' found"

def splitOption (arg : String) : String × Option String :=
  let name := arg.toList.takeWhile (· ≠ '=')
  (String.ofList name,
    if name.length < arg.length then some (String.ofList (arg.toList.drop (name.length + 1))) else none)

def takesValue (name : String) : Bool := ["--root", "--config", "--log-level"].contains name

def setOption (o : Options) (name value : String) : Except Stop Options :=
  let twice : Stop := .usage s!"the argument '{name}' cannot be used multiple times"
  let noValue : Stop := .usage s!"a value is required for '{name}' but none was supplied"
  match name with
  | "--root" =>
    if o.root.isSome then .error twice else if value = "" then .error noValue
    else .ok { o with root := some value }
  | "--config" =>
    if o.config.isSome then .error twice else if value = "" then .error noValue
    else .ok { o with config := some value }
  | "--log-level" => if o.logLevel.isSome then .error twice else .ok { o with logLevel := some value }
  | _ => .error (unexpected name)

structure Reading where
  limit : Nat
  versioned : Bool
  options : Options := {}
  operands : List String := []
  pending : Option String := none
  literal : Bool := false

namespace Reading

def noValue (name : String) : Stop := .usage s!"a value is required for '{name}' but none was supplied"

def operand (r : Reading) (arg : String) : Except Stop Reading :=
  if r.operands.length < r.limit && arg ≠ "" then .ok { r with operands := r.operands ++ [arg] }
  else .error (unexpected arg)

def flag (r : Reading) (arg : String) : Except Stop Reading :=
  let (name, value) := splitOption arg
  if takesValue name then
    match value with
    | some value => do return { r with options := ← setOption r.options name value }
    | none => .ok { r with pending := some name }
  else if arg = "--help" || Text.startsWith ['-', 'h'] arg.toList then .error .help
  else if r.versioned && (arg = "--version" || Text.startsWith ['-', 'V'] arg.toList) then .error .version
  else .error (unexpected arg)

def step (r : Reading) (arg : String) : Except Stop Reading :=
  match r.pending with
  | some name =>
    if isFlag arg then .error (noValue name)
    else do return { r with options := ← setOption r.options name arg, pending := none }
  | none =>
    if r.literal then r.operand arg
    else if arg = "--" then .ok { r with literal := true }
    else if isFlag arg then r.flag arg
    else r.operand arg

def finish (r : Reading) : Except Stop (Options × List String) :=
  match r.pending with
  | some name => .error (noValue name)
  | none => .ok (r.options, r.operands)

def isCommand (r : Reading) (arg : String) : Bool := r.pending.isNone && !r.literal && !isFlag arg

end Reading

/-- The arguments after a command: options, and at most `limit` operands. -/
def afterCommand (limit : Nat) (args : List String) : Except Stop (Options × List String) := do
  (← args.foldlM Reading.step { limit, versioned := false }).finish

/-- Options after the command count more than those before it. -/
def Options.over (inner outer : Options) : Options :=
  ⟨inner.root <|> outer.root, inner.config <|> outer.config, inner.logLevel <|> outer.logLevel⟩

def command (o : Options) (name : String) (args : List String) : Except Stop Invocation :=
  match name with
  | "serve" => do return ⟨(← afterCommand 0 args).1.over o, .serve⟩
  | "check" => do return ⟨(← afterCommand 0 args).1.over o, .check⟩
  | "transform" => do
    match ← afterCommand 1 args with
    | (inner, [file]) => return ⟨inner.over o, .transform file⟩
    | _ => .error (.usage "the following required arguments were not provided: <FILE>")
  | "help" =>
    if args.all ["serve", "check", "transform", "help"].contains && args.length ≤ 1 then .error .help
    else .error (.usage "unrecognized subcommand")
  | other => .error (.usage s!"unrecognized subcommand '{other}'")

def beforeCommand : Reading → List String → Except Stop Invocation
  | r, [] => do return ⟨(← r.finish).1, .serve⟩
  | r, arg :: rest =>
    if r.isCommand arg then command r.options arg rest else do beforeCommand (← r.step arg) rest

def parse (args : List String) : Except Stop Invocation := beforeCommand { limit := 0, versioned := true } args

structure Outcome where
  code : Nat
  output : String := ""
  complaints : List String := []

def failure (problem : Problem) : Outcome := { code := 1, complaints := [problem.message] }

def check (root : String) (config : Config) (w : Workspace) : Outcome :=
  match Session.create root config with
  | .error problem => failure problem
  | .ok s =>
    match s.discover w with
    | (.ok report, _) =>
      { code := if config.unmapped = .fatal && !report.failed.isEmpty then 1 else 0
        output := report.toJson.pretty ++ "\n" }
    | (.error problem, s) =>
      { failure problem with
        output := String.join (s.missing.toList.map fun (name, references) =>
          Server.missingLine name references ++ "\n") }

/-- The session that a file is transformed in. What is wrong with other files does not matter. -/
def preparedSession (root : String) (config : Config) (w : Workspace) : Except Problem Session := do
  let s ← Session.create root config
  return (s.discover w).2

def transform (s : Session) (w : Workspace) (file source : String) : Outcome :=
  match (s.transform w file source).1 with
  | .ok (some o) => { code := 0, output := o.code, complaints := o.diagnostics.map fun d => d.file ++ ": " ++ d.message }
  | .ok none => { code := 0, output := source }
  | .error problem => failure problem

def helpText : String :=
  "Resolve Ext JS class dependencies into ES imports\n\n" ++
  "Usage: extjs-import [OPTIONS] [COMMAND]\n\n" ++
  "Commands:\n" ++
  "  serve      Serve the resolver to a build host as JSON-RPC over stdio (default)\n" ++
  "  check      Run discovery and print the report with the missing imports\n" ++
  "  transform  Print one file as the build host would receive it\n" ++
  "  help       Print this message or the help of the given subcommand(s)\n\n" ++
  "Options:\n" ++
  "      --root <ROOT>            Project root. Defaults to the current directory\n" ++
  "      --config <CONFIG>        TOML configuration file\n" ++
  "      --log-level <LOG_LEVEL>  Log filter used when RUST_LOG is not set [default: info]\n" ++
  "  -h, --help                   Print help\n" ++
  "  -V, --version                Print version\n"

def stopped : Stop → Outcome
  | .version => { code := 0, output := Server.name ++ " " ++ Server.version ++ "\n" }
  | .help => { code := 0, output := helpText }
  | .usage complaint => { code := 2, complaints := ["error: " ++ complaint] }

def defaultConfig : String := "extjs-import.toml"

variable {m : Type → Type} [Monad m]

def configFrom (disk : Disk m) (path : String) : m (Except Problem Config) := do
  match ← disk.read path with
  | .error fault => return .error (.unreadable path fault.message)
  | .ok text => return Config.ofToml text

def loadConfig (disk : Disk m) (root : String) (chosen : Option String) : m (Except Problem Config) := do
  match chosen with
  | some path => configFrom disk path
  | none =>
    let path := joinPath root defaultConfig
    if ← disk.isFile path then configFrom disk path else return .ok .default

def rootOf (disk : Disk m) (chosen : Option String) : m String := do
  match chosen with
  | some path => return (← disk.canonical? path).getD path
  | none => disk.current

def run (disk : Disk m) (args : List String) : m (Option Outcome) := do
  match parse args with
  | .error stop => return some (stopped stop)
  | .ok ⟨_, .serve⟩ => return none
  | .ok ⟨options, command⟩ =>
    let root ← rootOf disk options.root
    match ← loadConfig disk root options.config with
    | .error problem => return some (failure problem)
    | .ok config =>
      let w ← disk.workspace root
      match command with
      | .serve => return none
      | .check => return some (check root config w)
      | .transform file =>
        match preparedSession root config w with
        | .error problem => return some (failure problem)
        | .ok s =>
          let path := joinPath s.root file
          match ← disk.read path with
          | .error fault => return some (failure (.unreadable path fault.message))
          | .ok source => return some (transform s w path source)

end ClassLinker.CommandLine
