import SlimeServer.Editor.Server
import SlimeServer.Evaluator.Handle
/-!
# Scripted evaluators

An evaluator whose behaviour is written down: rules that say what it does for each line it gets on
its standard input or on the socket. Sessions can be run against it without any process.
-/
namespace SlimeServer.Script

/-- A part of a text that an evaluator sends. -/
inductive Part where
  | bytes (piece : List UInt8)
  /-- Bytes of the session token, from one position up to another. -/
  | token (first last : Nat)
  /-- The value of an environment variable. -/
  | variable (name : String)
  /-- The line that is answered. -/
  | line
  deriving DecidableEq, Repr

inductive Step where
  | out (text : List Part)
  | frame (text : List Part)
  | raw (text : List Part)
  | close
  | closeStdin
  | exit (code : Int)
  | signal (number : Int)
  deriving DecidableEq, Repr

inductive Pattern where
  | exactly (line : String)
  | startingWith (start : String)
  deriving DecidableEq, Repr

def Pattern.matches (line : String) : Pattern → Bool
  | exactly wanted => line = wanted
  | startingWith start => start.toList.isPrefixOf line.toList

/-- What is done for the lines of a channel that match; at most `times` times. -/
structure Rule where
  channel : Channel
  pattern : Pattern
  times : Option Nat
  steps : List Step
  deriving DecidableEq, Repr

/-- What one scripted evaluator does: its rules, and its steps before it connects. -/
structure Scenario where
  rules : List Rule
  start : List Step
  connects : Bool
  ignoresTerminate : Bool
  deriving DecidableEq, Repr

/-- What a scripted evaluator knows: its scenario, how often each rule has been used, its token and
environment, how much output is queued at once (nothing: as it is written), whether it lives and
listens to its standard input, how many moments it has brought about, and the lines it has got,
oldest first. -/
structure Memory where
  scenario : Scenario
  used : List Nat
  token : List UInt8
  environment : Environment
  pieceSize : Option Nat
  alive : Bool
  hearing : Bool
  brought : Nat
  received : List (Channel × String)
  deriving DecidableEq, Repr

namespace Part

def bounds? (text : List Char) : Option (Nat × Nat) := do
  let (first, rest) := text.span (· ≠ ':')
  let first ← Numeral.readDigits? first
  let last ← Numeral.readDigits? (rest.drop 1)
  some (first, last)

def hexBytes? : List Char → Option (List UInt8)
  | [] => some []
  | [_] => none
  | a :: b :: rest => do
    let high ← Numeral.hexValue? a
    let low ← Numeral.hexValue? b
    let more ← hexBytes? rest
    some (UInt8.ofNat (high * 16 + low) :: more)

/-- The part that a placeholder stands for, given the text between its brackets. -/
def ofPlaceholder? (text : List Char) : Option Part :=
  let (name, rest) := text.span (· ≠ ':')
  let rest := rest.drop 1
  if text = "TOKEN".toList then some (.token 0 1000)
  else if text = "LINE".toList then some .line
  else if name = "TOKEN".toList then (bounds? rest).map fun (a, b) => .token a b
  else if name = "HEX".toList then (hexBytes? rest).map Part.bytes
  else if name = "ENV".toList then some (.variable (String.ofList rest))
  else none

def ofChars : Nat → List Char → List Part
  | 0, _ => []
  | _ + 1, [] => []
  | fuel + 1, c :: rest =>
    if c = '<' then
      let (inside, after) := rest.span (· ≠ '>')
      match after, ofPlaceholder? inside with
      | _ :: after, some part => part :: ofChars fuel after
      | _, _ => .bytes (Utf8.encodeChar c) :: ofChars fuel rest
    else .bytes (Utf8.encodeChar c) :: ofChars fuel rest

def ofText (text : String) : List Part := ofChars (text.length + 1) text.toList

end Part

namespace Memory

def expand (m : Memory) (line : String) (text : List Part) : List UInt8 :=
  text.flatMap fun
    | .bytes piece => piece
    | .token first last => (m.token.take last).drop first
    | .variable name => Utf8.encode ((m.environment.lookup name).getD "")
    | .line => Utf8.encode line

def pieces (size : Nat) (bytes : List UInt8) : List (List UInt8) :=
  if _h : bytes.length ≤ size ∨ size = 0 then [bytes]
  else bytes.take size :: pieces size (bytes.drop size)
termination_by bytes.length
decreasing_by
  simp only [not_or] at _h
  simp only [List.length_drop]
  omega

def outputMoments (m : Memory) (bytes : List UInt8) : List Moment :=
  if bytes.isEmpty then []
  else match m.pieceSize with
    | some size => (pieces size bytes).map Moment.output
    | none => [.output bytes]

def exitMoments (code signal : Option Int) : List Moment :=
  [.stdinBreaks "Broken pipe (os error 32)", .socketEnds .closed, .exits code signal, .outputEnds]

/-- One step for a line, if the evaluator still lives. -/
def perform (line : String) (state : Memory × List Moment) (step : Step) : Memory × List Moment :=
  let (m, moments) := state
  if !m.alive then state
  else match step with
    | .out text => (m, moments ++ m.outputMoments (m.expand line text))
    | .frame text =>
      let payload := m.expand line text
      (m, moments ++ [.received (Frame.hexDigits Frame.headerLength payload.length ++ payload)])
    | .raw text => (m, moments ++ [.received (m.expand line text)])
    | .close => (m, moments ++ [.socketEnds .closed])
    | .closeStdin =>
      ({ m with hearing := false }, moments ++ [.stdinBreaks "Broken pipe (os error 32)"])
    | .exit code => ({ m with alive := false }, moments ++ exitMoments (some (code % 256)) none)
    | .signal number => ({ m with alive := false }, moments ++ exitMoments none (some number))

/-- The place of the first rule that is for a line and has not been used up. -/
def ruleFor? (channel : Channel) (line : String) : Nat → List Rule → List Nat → Option (Nat × Rule)
  | i, rule :: rules, used :: usedRest =>
    if rule.channel = channel && rule.pattern.matches line &&
        (rule.times.map fun n => decide (used < n)).getD true then some (i, rule)
    else ruleFor? channel line (i + 1) rules usedRest
  | _, _, _ => none

def getLine (channel : Channel) (state : Memory × List Moment) (line : String) :
    Memory × List Moment :=
  let (m, moments) := state
  if !m.alive || (channel = .stdin && !m.hearing) then state
  else
    let m := { m with received := m.received ++ [(channel, line)] }
    match ruleFor? channel line 0 m.scenario.rules m.used with
    | none => (m, moments)
    | some (i, rule) =>
      rule.steps.foldl (perform line) ({ m with used := m.used.modify i (· + 1) }, moments)

/-- Counts the moments that a reaction brings about. -/
def bring (state : Memory × List Moment) : Memory × Reaction :=
  let (m, moments) := state
  ({ m with brought := m.brought + moments.length }, ⟨moments, 0⟩)

/-- The reaction to an act of the bridge. When the bridge looks, everything has arrived. -/
def react (m : Memory) : Act → Memory × Reaction
  | .line channel text =>
    let lines := ((Text.lines (text.toList ++ ['\n'])).map String.ofList)
    bring (lines.foldl (getLine channel) (m, []))
  | .look => (m, ⟨[], m.brought⟩)
  | .terminate =>
    bring (if m.scenario.ignoresTerminate || !m.alive then (m, [])
      else ({ m with alive := false }, exitMoments none (some 15)))

/-- A scripted evaluator that has just been started, and what its first steps bring. -/
def begin (scenario : Scenario) (token : List UInt8) (environment : Environment)
    (pieceSize : Option Nat) : Memory × List Moment :=
  let fresh : Memory :=
    ⟨scenario, scenario.rules.map fun _ => 0, token, environment, pieceSize, true, true, 0, []⟩
  let (m, moments) := scenario.start.foldl (perform "") (fresh, [])
  ({ m with brought := moments.length }, moments)

end Memory

def behaviour : Behaviour Memory := ⟨Memory.react⟩

def port : Nat := 40000

/-- How far a scripted evaluator gets when it is to connect. It is cut off from the bridge's port
where `reachable` is false, and nobody waits for it longer than `patience` milliseconds. -/
def arrival (reachable : Bool) (patience : Nat) (settings : Config.Settings) (scenario : Scenario)
    (moments : List Moment) : Arrival :=
  let exit? := moments.findSome? fun
    | .exits code signal => some (code, signal)
    | _ => none
  match exit? with
  | some (code, signal) => .exited code signal
  | none =>
    if scenario.connects && reachable then .connected
    else if settings.connectTimeoutMs < patience then .late
    else .never

def emptyDirectories (names : List String) : List (String × Place) :=
  names.map fun name => (name, .directory [])

def places : Place := .directory
  ([("dev", .directory (["full", "null", "random", "tty", "urandom", "zero"].map fun name =>
      (name, Place.file))),
    ("etc", .directory (["group", "hostname", "hosts", "passwd", "resolv.conf"].map fun name =>
      (name, Place.file))),
    ("usr", .directory (("local", .directory (emptyDirectories ["bin", "lib"])) ::
      emptyDirectories ["bin", "lib", "sbin", "share"])),
    ("var", .directory (emptyDirectories ["cache", "lib", "log", "tmp"]))] ++
    emptyDirectories ["bin", "boot", "home", "lib", "media", "mnt", "opt", "proc", "root", "run",
      "sbin", "srv", "sys", "tmp"])

def searchPath : String := "/usr/bin:/bin"

/-- What comes of starting a command that is none of the scripted evaluators. A zero byte is found
before the program is looked for. -/
def startError (command : List String) (environment : Environment) : StartError :=
  match command with
  | [] => .emptyCommand
  | program :: _ =>
    let texts := command ++ environment.flatMap fun (name, value) => [name, value]
    if texts.any fun text => text.toList.contains '\u0000' then .failed program .zeroByte
    else .failed program (places.start ((environment.lookup "PATH").getD searchPath) program)

/-- The site of scripted evaluators: the numbered attempt starts the scenario of that number,
the last one again when there are no more. Without scenarios the configured program is started,
which is not there. -/
def site (scenarios : List Scenario) (reachable : Bool) (patience : Nat) : Site Memory where
  attempt n settings :=
    match scenarios[n]?.or scenarios.getLast? with
    | none => .failed (startError (settings.evaluatorCommand port) settings.environment).message
    | some scenario =>
      let (memory, moments) := Memory.begin scenario (Utf8.encode (sessionToken port))
        settings.environment (some settings.tuning.readBufferSize)
      .started port (.start memory moments)
        (arrival reachable patience settings scenario moments)
  behaviour := behaviour
  processId := 4242
  machine := "<ARCH>"

def handle (scenario : Scenario) (environment : Environment) : Handle Memory :=
  let (memory, moments) := Memory.begin scenario (Utf8.encode (sessionToken port)) environment none
  .start (.start memory moments)

def received (p : Peer Memory) : List (Channel × String) := p.memory.received

end SlimeServer.Script
