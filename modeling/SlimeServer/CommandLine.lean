import SlimeServer.Config.Settings
/-!
# The command line

Long options with values, one flag, and the requests for help and for the version. An option may
be given once. A value that starts with a hyphen has to be given after an equals sign.
-/
namespace SlimeServer.CommandLine

/-- Why a command line is not accepted, or what is to be shown instead of running. -/
inductive UsageError where
  | unknownArgument
  | invalidValue
  | valueValidation
  | tooManyValues
  | argumentConflict
  | displayHelp
  | displayVersion
  deriving DecidableEq, Repr

/-- The exit code after a usage error; showing help or the version is a success. -/
def UsageError.exitCode : UsageError → Nat
  | displayHelp | displayVersion => 0
  | _ => 2

inductive OptionName where
  | host
  | port
  | program
  | initFile
  | config
  | logLevel
  | bufferSize
  | pollIntervalMs
  deriving DecidableEq, Repr

namespace OptionName

def all : List OptionName :=
  [host, port, program, initFile, config, logLevel, bufferSize, pollIntervalMs]

def text : OptionName → String
  | host => "host"
  | port => "port"
  | program => "program"
  | initFile => "init-file"
  | config => "config"
  | logLevel => "log-level"
  | bufferSize => "buffer-size"
  | pollIntervalMs => "poll-interval-ms"

def ofText? (name : String) : Option OptionName := all.find? fun o => o.text = name

/-- A number for `port`, `buffer-size` and `poll-interval-ms`; a path may not be empty. -/
def checkValue (o : OptionName) (value : String) : Except UsageError Unit :=
  match o with
  | port =>
    match Numeral.readInt64? value.toList with
    | some n => if 0 ≤ n.toInt ∧ n.toInt < 0x10000 then .ok () else .error .valueValidation
    | none => .error .valueValidation
  | bufferSize | pollIntervalMs =>
    if (Numeral.readUnsigned? 64 value.toList).isSome then .ok () else .error .valueValidation
  | initFile | config => if value.isEmpty then .error .invalidValue else .ok ()
  | host | program | logLevel => .ok ()

end OptionName

/-- What has been read of a command line: the values given, the flag, and an option whose value is
still to come or has come but is not looked at yet. -/
structure Progress where
  values : List (OptionName × String)
  color : Bool
  pending : Option (OptionName × Option String)
  deriving DecidableEq, Repr

namespace Progress

def start : Progress := ⟨[], false, none⟩

/-- Takes over a value. A repeated option is a conflict whatever its value is. -/
def settle (p : Progress) (o : OptionName) (value : String) : Except UsageError Progress :=
  if (p.values.lookup o).isSome then .error .argumentConflict
  else (o.checkValue value).map fun () => { p with values := p.values ++ [(o, value)] }

/-- Looks at the pending option; one without a value is a fault. -/
def resolve (p : Progress) : Except UsageError Progress :=
  match p.pending with
  | none => .ok p
  | some (_, none) => .error .invalidValue
  | some (o, some value) => { p with pending := none }.settle o value

end Progress

inductive Argument where
  | long (name : String) (value : Option String)
  | short (first : Char)
  | escape
  | plain (text : String)
  deriving DecidableEq, Repr

/-- Two hyphens start a long option, which an equals sign separates from its value; one hyphen
with something after it starts short options. -/
def Argument.ofText (text : String) : Argument :=
  match text.toList with
  | ['-', '-'] => .escape
  | '-' :: '-' :: rest =>
    let (name, value) := rest.span (· ≠ '=')
    match value with
    | [] => .long (String.ofList name) none
    | _ :: value => .long (String.ofList name) (some (String.ofList value))
  | '-' :: c :: _ => .short c
  | _ => .plain text

def takeLong (p : Progress) (name : String) (value : Option String) : Except UsageError Progress :=
  match OptionName.ofText? name with
  | some o => do
    let p ← p.resolve
    match value with
    | some value => p.settle o value
    | none => return { p with pending := some (o, none) }
  | none =>
    if name = "color" ∨ name = "help" ∨ name = "version" then
      if value.isSome then .error .tooManyValues
      else do
        let p ← p.resolve
        if name = "help" then .error .displayHelp
        else if name = "version" then .error .displayVersion
        else if p.color then .error .argumentConflict
        else return { p with color := true }
    else .error .unknownArgument

/-- Short options; only the first letter decides. -/
def takeShort (p : Progress) (first : Char) : Except UsageError Progress :=
  if first = 'h' then p.resolve.bind fun _ => .error .displayHelp
  else if first = 'V' then p.resolve.bind fun _ => .error .displayVersion
  else .error .unknownArgument

/-- The arguments one after the other. There are no positional arguments, and after `--` nothing
else is allowed. -/
def takeAll (p : Progress) : List String → Except UsageError Progress
  | [] => p.resolve
  | text :: rest =>
    match Argument.ofText text with
    | .escape => if rest.isEmpty then p.resolve else .error .unknownArgument
    | .long name value => do takeAll (← takeLong p name value) rest
    | .short first => do takeAll (← takeShort p first) rest
    | .plain text =>
      match p.pending with
      | some (o, none) => takeAll { p with pending := some (o, some text) } rest
      | _ => .error .unknownArgument

structure Invocation where
  overrides : Config.Layer
  logLevel : String
  config : Option String
  deriving DecidableEq, Repr

def Progress.toInvocation (p : Progress) : Invocation :=
  let text (o : OptionName) : Option String := p.values.lookup o
  let number (o : OptionName) : Option Nat :=
    (text o).map fun value => (Numeral.readUnsigned? 64 value.toList).getD 0
  { overrides :=
      { Config.Layer.empty with
        host := text .host
        port := number .port
        program := text .program
        initFile := text .initFile
        color := if p.color then some true else none
        readBufferSize := number .bufferSize
        pollIntervalMs := number .pollIntervalMs }
    logLevel := (text .logLevel).getD "info"
    config := text .config }

def parse (args : List String) : Except UsageError Invocation :=
  (takeAll .start args).map Progress.toInvocation

def versionText : String := "swankbridge 0.1.0\n"

def helpLines : List (String × String) := [
  ("      --host <HOST>", "Address to listen on for the editor"),
  ("      --port <PORT>", "Port to listen on for the editor (0 picks a free port)"),
  ("      --program <PROGRAM>", "Evaluator executable (e.g. irteusgl, roseus)"),
  ("      --init-file <INIT_FILE>", "File the evaluator loads before connecting back"),
  ("      --color", "Pass terminal color escapes through to the editor"),
  ("      --config <CONFIG>", "Configuration file layered over the user configuration"),
  ("      --log-level <LOG_LEVEL>",
    "Default log filter when RUST_LOG is unset [default: info]"),
  ("      --buffer-size <BUFFER_SIZE>", "Bytes requested per read of the evaluator's output"),
  ("      --poll-interval-ms <POLL_INTERVAL_MS>",
    "Output polling and liveness-check interval"),
  ("  -h, --help", "Print help"),
  ("  -V, --version", "Print version")]

def helpText : String :=
  "Serve a SLIME editor over SWANK, backed by a Lisp evaluator subprocess\n\n" ++
    "Usage: swankbridge [OPTIONS]\n\nOptions:\n" ++
    String.join (helpLines.map fun (option, help) => option ++ "\n          " ++ help ++ "\n")

end SlimeServer.CommandLine
