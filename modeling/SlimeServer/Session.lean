import SlimeServer.Evaluator.Debugger
import SlimeServer.Evaluator.Evaluation
/-!
# Sessions

A session holds the link to the running evaluator, if there is one, and the open debugger levels.
Evaluators are started on a site, which says what becomes of each attempt.
-/
namespace SlimeServer

/-- What becomes of an evaluator that was started, while the session waits for it to connect. -/
inductive Arrival where
  | connected
  | exited (code signal : Option Int)
  | refused (reason : String)
  | late
  | never
  deriving DecidableEq, Repr

/-- An attempt to start an evaluator: it fails with a message, or a process runs that is to connect
to a port. -/
inductive Attempt (σ : Type) where
  | failed (message : String)
  | started (port : Nat) (peer : Peer σ) (arrival : Arrival)

/-- Where evaluators run: how each attempt comes out, by its number, and how evaluators behave. The
identity of the bridge's own process and its machine are reported to the editor. -/
structure Site (σ : Type) where
  attempt : Nat → Config.Settings → Attempt σ
  behaviour : Behaviour σ
  processId : Int64
  machine : String

/-- The state shared by all requests. `retired` are the evaluators that were given up, oldest
first. -/
structure Session (σ : Type) where
  settings : Config.Settings
  link : Option (Link σ)
  debugger : Debugger
  stopping : Bool
  attempts : Nat
  retired : List (Peer σ)

abbrev SessionOp (σ α : Type) := Op (Session σ) Report α

/-- A span of milliseconds in seconds or, below one second, in milliseconds. -/
def spanText (ms : Nat) : String :=
  if ms = 0 then "0ns"
  else if ms < 1000 then s!"{ms}ms"
  else
    let digits := Numeral.writeNat (1000 + ms % 1000)
    let fraction := (digits.drop 1).reverse.dropWhile (· = '0')
    let point := if fraction.isEmpty then "" else "."
    s!"{ms / 1000}{point}{String.ofList fraction.reverse}s"

namespace Session

variable {σ α : Type}

def start (settings : Config.Settings) : Session σ :=
  ⟨settings, none, .empty, false, 0, []⟩

def noEvaluator : Report := .lost "No evaluator is running; invoke RESTART to start one"

def retire (s : Session σ) : Session σ :=
  { s with link := none, retired := s.retired ++ (s.link.map Link.peer).toList }

def onLink (op : LinkOp σ α) : SessionOp σ α := fun s =>
  match s.link with
  | none => (.error (.failed noEvaluator), s)
  | some l =>
    let (answer, l) := op l
    (answer, { s with link := some l })

/-- What is wrong with an evaluator that has not connected. -/
def arrivalFault (settings : Config.Settings) : Arrival → Stop Report
  | .exited code signal =>
    .failed (((ProcessState.exited code signal).loss?).getD (.lost "Process exited"))
  | .refused reason => .failed (.lost ("Failed to accept evaluator connection: " ++ reason))
  | .late =>
    .failed (.lost ("Evaluator did not connect within " ++ spanText settings.connectTimeoutMs))
  | _ => .stalled

/-- Takes an evaluator that has connected into the session and enters its read loop. -/
def adopt (b : Behaviour σ) (port : Nat) (peer : Peer σ) : SessionOp σ Unit := fun s =>
  match Link.writeStdin b initCommand (.connected peer port s.settings.tuning) with
  | (.ok (), l) => (.ok (), { s with link := some l })
  | (.error stop, l) => (.error stop, { s with retired := s.retired ++ [l.peer] })

/-- Gives up the evaluator and starts another one. The attempt counts however it comes out. -/
def launch (site : Site σ) : SessionOp σ Unit := fun s =>
  let begun := { s.retire with attempts := s.attempts + 1 }
  match site.attempt s.attempts s.settings with
  | .failed message => (.error (.failed (.lost message)), begun)
  | .started port peer .connected => adopt site.behaviour port peer begun
  | .started _ peer arrival =>
    (.error (arrivalFault s.settings arrival), { begun with retired := begun.retired ++ [peer] })

/-- Closes every debugger level and starts an evaluator. -/
def restart (site : Site σ) : SessionOp σ Unit := do
  Op.modify fun s => { s with debugger := .empty }
  launch site

def shutdown (s : Session σ) : Session σ := { s with debugger := .empty }.retire

def requestStop (s : Session σ) : Session σ := { s with stopping := true }

def linkState? (s : Session σ) : Option LinkState := s.link.map Link.state

/-- What a recovery does once its level is closed. -/
def perform (site : Site σ) : Recovery → SessionOp σ Unit
  | .quit => do
    Op.modify fun s => { s with debugger := .empty }
    match (← Op.get).link with
    | some l => if l.isFailed then pure () else onLink (Link.resetToTopLevel site.behaviour)
    | none => pure ()
  | .resume => Op.modify fun s => { s with link := s.link.map Link.acknowledge }
  | .restart => restart site

/-- Closes the levels from the given one on and applies a recovery. The closed level is returned
together with the recovery's own failure. -/
def recover (site : Site σ) (level : Nat) (recovery : Recovery) :
    Op (Session σ) RequestError (DebuggerLevel × Option Report) := fun s =>
  match s.debugger.take level with
  | (none, _) =>
    (.error (.failed (.invalidArguments "swank:invoke-nth-restart-for-emacs"
      s!"no debugger session at level {level}")), s)
  | (some closed, debugger) =>
    match perform site recovery { s with debugger } with
    | (.ok (), s) => (.ok (closed, none), s)
    | (.error (.failed report), s) => (.ok (closed, some report), s)
    | (.error .stalled, s) => (.error .stalled, s)

end Session
end SlimeServer
