import SlimeServer.Config.Settings
import SlimeServer.Config.Toml.Document
import SlimeServer.Text.Utf8
/-!
# Loading the configuration

Settings come from the user's file, from a file named on the command line and from the command
line itself, each on top of the one before. A file that cannot be read or parsed is passed over,
and what became of each file is reported. Loading works with any parser of files; the program runs
with that of TOML.
-/
namespace SlimeServer.Config

/-- Reads a value of a table by its key: nothing where the key is missing, and a failure where the
value is not of the kind that is wanted. -/
def field? {α : Type} (table : Toml) (key : String) (convert? : Toml → Option α) :
    Option (Option α) :=
  match table.get? key with
  | none => some none
  | some value => (convert? value).map some

def text? : Toml → Option String
  | .string text => some text
  | _ => none

def flag? : Toml → Option Bool
  | .boolean flag => some flag
  | _ => none

/-- A number below `2 ^ bits`. -/
def size? (bits : Nat) : Toml → Option Nat
  | .integer n => if 0 ≤ n ∧ n.toNat < Nat.pow 2 bits then some n.toNat else none
  | _ => none

/-- A table of strings. A date is taken for a table with one variable. -/
def environment? : Toml → Option Environment
  | .table entries => do
    let texts ← entries.mapM fun (name, value) => (text? value).map fun text => (name, text)
    some (.ofEntries texts)
  | .moment text => some [("$__toml_private_datetime", text)]
  | _ => none

namespace Layer

/-- The layer that a table sets; keys that mean nothing are passed over. -/
def ofToml? (table : Toml) : Option Layer := do
  let program ← field? table "program" text?
  let initFile ← field? table "initFile" text?
  let host ← field? table "host" text?
  let port ← field? table "port" (size? 16)
  let color ← field? table "color" flag?
  let readBufferSize ← field? table "readBufferSize" (size? 64)
  let pollIntervalMs ← field? table "pollIntervalMs" (size? 64)
  let callStackDepth ← field? table "callStackDepth" (size? 64)
  let connectTimeoutMs ← field? table "connectTimeoutMs" (size? 64)
  let terminateTimeoutMs ← field? table "terminateTimeoutMs" (size? 64)
  let implementation ← field? table "implementation" text?
  let environment ← field? table "environment" environment?
  return ⟨program, initFile, host, port, color, readBufferSize, pollIntervalMs, callStackDepth,
    connectTimeoutMs, terminateTimeoutMs, implementation, environment⟩

/-- The layer in a text of TOML. What is wrong with a text that has none is not told apart. -/
def parse (text : String) : Except String Layer :=
  match (Toml.parse? text).bind ofToml? with
  | some layer => .ok layer
  | none => .error "TOML parse error"

end Layer

/-- What reads the text of a file: it gives the layer in it, or says what is wrong with it. -/
abbrev Parser := String → Except String Layer

/-- A file as it is found: its bytes, or the reason why it cannot be read. -/
inductive FileState where
  | bytes (content : List UInt8)
  | unreadable (reason : String)
  | missing
  deriving DecidableEq, Repr

/-- Why a file gives no layer. -/
inductive FileError where
  | read (reason : String)
  | parse (reason : String)
  deriving DecidableEq, Repr

/-- What is told about a file that gives no layer. -/
def FileError.message (path : String) : FileError → String
  | read reason => "Failed to read " ++ path ++ ": " ++ reason
  | parse reason => "Failed to parse " ++ path ++ ": " ++ reason

section

variable (parse : Parser)

/-- The layer in a file that is expected to be there. -/
def loadFile : FileState → Except FileError Layer
  | .missing => .error (.read "No such file or directory (os error 2)")
  | .unreadable reason => .error (.read reason)
  | .bytes content =>
    match Utf8.decode? content with
    | none => .error (.read "stream did not contain valid UTF-8")
    | some text => (parse text).mapError .parse

/-- The layer in the user's file, which may be missing. -/
def loadUserFile : FileState → Except FileError (Option Layer)
  | .missing => .ok none
  | file => (loadFile parse file).map some

end

inductive EventKind where
  | info
  | warning
  deriving DecidableEq, Repr

structure Event where
  kind : EventKind
  message : String
  deriving DecidableEq, Repr

section

variable (parse : Parser)

def userLayer (path : String) (file : FileState) : Option Layer × List Event :=
  match loadUserFile parse file with
  | .ok (some layer) => (some layer, [⟨.info, "Loaded user config"⟩])
  | .ok none => (none, [])
  | .error error =>
    (none, [⟨.warning, "Failed to load user config: " ++ error.message path⟩])

def fileLayer (path : String) : Option FileState → Option Layer × List Event
  | none => (none, [])
  | some file =>
    match loadFile parse file with
    | .ok layer => (some layer, [⟨.info, "Loaded config file: " ++ path⟩])
    | .error error => (none, [⟨.warning, error.message path⟩])

def load (userPath : String) (user : FileState) (path : String) (file : Option FileState)
    (overrides : Layer) : Settings × List Event :=
  let (userLayer, userEvents) := userLayer parse userPath user
  let (fileLayer, fileEvents) := fileLayer parse path file
  let merged := Layer.mergeAll [userLayer, fileLayer, some overrides]
  ((merged.getD .empty).resolve, userEvents ++ fileEvents)

end

def joinPath (base name : String) : String :=
  if base.isEmpty || base.toList.getLast? = some '/' then base ++ name else base ++ "/" ++ name

/-- The path of the user's file: below the directory that the environment names for
configurations, or else below `.config` in the home directory. -/
def userPath (configHome : Option String) (home : String) : String :=
  let base := match configHome with
    | some directory => if directory.isEmpty then joinPath home ".config" else directory
    | none => joinPath home ".config"
  joinPath (joinPath base "swankbridge") "swankbridge.toml"

end SlimeServer.Config
