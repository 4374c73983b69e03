import SlimeServer.Number.Numeral
/-!
# Configuration layers and settings

A layer sets any of twelve values. Layers are merged with the later one winning, the environment
variable by variable, and what no layer sets has a default.
-/
namespace SlimeServer

/-- Environment variables with their values, each name once. -/
abbrev Environment := List (String × String)

namespace Environment

/-- Sets a variable, in place where it is already there. -/
def set (name value : String) : Environment → Environment
  | [] => [(name, value)]
  | (n, v) :: rest => if n = name then (n, value) :: rest else (n, v) :: set name value rest

def override (base top : Environment) : Environment :=
  top.foldl (fun env (name, value) => set name value env) base

def ofEntries (entries : List (String × String)) : Environment := override [] entries

theorem lookup_set (env : Environment) (name value other : String) :
    (env.set name value).lookup other = if other = name then some value else env.lookup other := by
  induction env with
  | nil =>
    by_cases h : other = name
    · simp [set, h]
    · simp [set, List.lookup_cons, beq_eq_false_iff_ne.2 h, h]
  | cons entry rest ih =>
    obtain ⟨n, v⟩ := entry
    by_cases hn : n = name
    · subst hn
      by_cases h : other = n
      · simp [set, h]
      · simp [set, List.lookup_cons, beq_eq_false_iff_ne.2 h, h]
    · by_cases h : other = n
      · subst h
        simp [set, hn]
      · simp [set, List.lookup_cons, beq_eq_false_iff_ne.2 h, hn, ih]

end Environment

namespace Config

/-- One layer of configuration; what it does not set is left to the layers below. -/
structure Layer where
  program : Option String
  initFile : Option String
  host : Option String
  port : Option Nat
  color : Option Bool
  readBufferSize : Option Nat
  pollIntervalMs : Option Nat
  callStackDepth : Option Nat
  connectTimeoutMs : Option Nat
  terminateTimeoutMs : Option Nat
  implementation : Option String
  environment : Option Environment
  deriving DecidableEq, Repr

namespace Layer

def empty : Layer :=
  ⟨none, none, none, none, none, none, none, none, none, none, none, none⟩

def mergeEnvironment : Option Environment → Option Environment → Option Environment
  | some base, some top => some (base.override top)
  | base, top => top.or base

/-- The values of `top`, and below them those of `base`. -/
def override (base top : Layer) : Layer where
  program := top.program.or base.program
  initFile := top.initFile.or base.initFile
  host := top.host.or base.host
  port := top.port.or base.port
  color := top.color.or base.color
  readBufferSize := top.readBufferSize.or base.readBufferSize
  pollIntervalMs := top.pollIntervalMs.or base.pollIntervalMs
  callStackDepth := top.callStackDepth.or base.callStackDepth
  connectTimeoutMs := top.connectTimeoutMs.or base.connectTimeoutMs
  terminateTimeoutMs := top.terminateTimeoutMs.or base.terminateTimeoutMs
  implementation := top.implementation.or base.implementation
  environment := mergeEnvironment base.environment top.environment

/-- The same for layers that may be absent. -/
def merge : Option Layer → Option Layer → Option Layer
  | some base, some top => some (base.override top)
  | base, top => top.or base

def mergeAll (layers : List (Option Layer)) : Option Layer :=
  layers.foldl merge none

@[simp] theorem merge_none_left (layer : Option Layer) : merge none layer = layer := by
  cases layer <;> rfl

@[simp] theorem merge_none_right (layer : Option Layer) : merge layer none = layer := by
  cases layer <;> rfl

end Layer

structure Tuning where
  color : Bool
  readBufferSize : Nat
  pollIntervalMs : Nat
  callStackDepth : Nat
  deriving DecidableEq, Repr

/-- All settings resolved. Times are in milliseconds. -/
structure Settings where
  program : String
  initFile : Option String
  host : String
  port : Nat
  tuning : Tuning
  connectTimeoutMs : Nat
  terminateTimeoutMs : Nat
  implementation : String
  environment : Environment
  deriving DecidableEq, Repr

/-- A size or interval of zero counts as not set. -/
def positive? (n : Option Nat) : Option Nat := n.filter (0 < ·)

/-- Variables set for every evaluator: loggers that are not told so would hold back the lines they
print. -/
def forcedEnvironment : Environment := [("ROSCONSOLE_STDOUT_LINE_BUFFERED", "1")]

/-- The settings of a layer, with defaults for what it leaves open. -/
def Layer.resolve (layer : Layer) : Settings where
  program := layer.program.getD "irteusgl"
  initFile := layer.initFile
  host := layer.host.getD "127.0.0.1"
  port := layer.port.getD 4005
  tuning :=
    { color := layer.color.getD false
      readBufferSize := (positive? layer.readBufferSize).getD 7000
      pollIntervalMs := (positive? layer.pollIntervalMs).getD 5
      callStackDepth := layer.callStackDepth.getD 10 }
  connectTimeoutMs := layer.connectTimeoutMs.getD 30000
  terminateTimeoutMs := layer.terminateTimeoutMs.getD 2000
  implementation := layer.implementation.getD "irteusgl"
  environment := (layer.environment.getD []).override forcedEnvironment

def Settings.evaluatorCommand (settings : Settings) (port : Nat) : List String :=
  settings.program :: (settings.initFile.toList ++ [s!"--port-{port}"])

end Config
end SlimeServer
