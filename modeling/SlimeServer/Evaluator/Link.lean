import SlimeServer.Config.Settings
import SlimeServer.Evaluator.CallStack
import SlimeServer.Evaluator.Peer
import SlimeServer.Evaluator.Splitter
import SlimeServer.Text.Color
/-!
# The link to an evaluator

Evaluations of the user are written to the evaluator's standard input. What they print comes back
as output that ends with the session token; after it the outcome comes on the socket, as a frame
`result` with a second frame, `error` with a second frame, or `abort`. Commands of the bridge
itself go over the socket at once.

A link that failed refuses every further operation. A failure that is not fatal leaves it in the
state `errorRaised` until the editor picks a restart.
-/
namespace SlimeServer

/-- Entered on the standard input once the evaluator has connected. -/
def initCommand : String := "(slime:slimetop)"

/-- Entered on the standard input to leave every nested level. -/
def topLevelCommand : String := "reset"

/-- Sent on the socket after a call-stack dump. -/
def resetLevelCommand : String := "(reset *replevel*)"

/-- Sent on the socket to ask for a call stack of some depth, and for the lines at its head. The sum
is that of machine words. -/
def callStackCommand (depth : Nat) : String :=
  s!"(slime:print-callstack {(depth + CallStack.padding) % UInt64.size})"

/-- What the evaluator prints after the output of an evaluation. -/
def sessionToken (port : Nat) : String := s!"\u001deuslime-token-{port}"

inductive LinkState where
  | idle
  | evaluating
  | errorRaised
  | failed
  deriving DecidableEq, Repr

structure Link (σ : Type) where
  peer : Peer σ
  token : List UInt8
  tuning : Config.Tuning
  state : LinkState

abbrev LinkOp (σ α : Type) := Op (Link σ) Report α

inductive Outcome where
  | result (value : Sexp) (printed : String)
  | error (message : String)
  | abort
  /-- An error whose message frame is left unread. -/
  | deferred
  deriving DecidableEq, Repr

namespace Link

variable {σ α : Type}

def connected (peer : Peer σ) (port : Nat) (tuning : Config.Tuning) : Link σ :=
  ⟨peer, Utf8.encode (sessionToken port), tuning, .idle⟩

def isFailed (l : Link σ) : Bool := l.state = .failed

def acknowledge (l : Link σ) : Link σ :=
  if l.state = .failed then l else { l with state := .idle }

def note (l : Link σ) (report : Report) : Link σ :=
  { l with state := if report.fatal then .failed else .errorRaised }

/-- Runs an operation and keeps its failure in the state. -/
def noting (op : LinkOp σ α) : LinkOp σ α := fun l =>
  match op l with
  | (.error (.failed report), l) => (.error (.failed report), l.note report)
  | answer => answer

def modifyPeer (f : Peer σ → Peer σ) : LinkOp σ Unit :=
  Op.modify fun l => { l with peer := f l.peer }

def clean (l : Link σ) (text : String) : String :=
  if l.tuning.color then text else Text.stripColor text

section

variable (b : Behaviour σ)

def look : LinkOp σ Unit := modifyPeer fun p => p.act b .look

def checkAlive : LinkOp σ Unit := do
  look b
  match (← Op.get).peer.loss? with
  | some report => Op.fail report
  | none => pure ()

/-- Refuses to go on over a failed link or with a process that has ended. -/
def ensureUsable : LinkOp σ Unit := do
  if (← Op.get).state = .failed then
    Op.fail (.lost "Evaluator connection has failed; invoke RESTART to start a new evaluator")
  noting (checkAlive b)

/-- Drops output left over from earlier operations. -/
def dropOutput : LinkOp σ Unit := do
  look b
  modifyPeer Peer.dropOutput

/-- Drops bytes left over on the socket from earlier operations. -/
def dropInbox : LinkOp σ Unit := do
  look b
  modifyPeer Peer.dropInbox

/-- Writes a line to the standard input. Where that fails, a process found to have ended is the
reason given. -/
def writeStdin (text : String) : LinkOp σ Unit := do
  let l ← Op.get
  match l.peer.write b .stdin (Text.trim text) with
  | .ok peer => Op.modify fun l => { l with peer := peer }
  | .error reason => do
    checkAlive b
    Op.fail (.lost ("Failed to write to evaluator: " ++ reason))

def writeSocket (text : String) : LinkOp σ Unit := do
  let l ← Op.get
  match l.peer.write b .socket (Text.trim text) with
  | .ok peer => Op.modify fun l => { l with peer := peer }
  | .error reason => Op.fail (.lost ("Socket error: " ++ reason))

end

def awaitPiece : LinkOp σ (List UInt8) := fun l =>
  let (answer, peer) := l.peer.awaitPiece l.peer.coming
  (answer, { l with peer := peer })

def awaitFrame : LinkOp σ (List UInt8) := fun l =>
  let (answer, peer) := l.peer.awaitFrame l.peer.coming
  (answer, { l with peer := peer })

/-- The value of a result and its text without colour escapes. A text that cannot be read is the
name of a symbol. -/
def resultOf (payload : List UInt8) : Sexp × String :=
  let printed := Text.stripColor (Utf8.decodeLossy payload)
  match Sexp.read printed with
  | .ok value => (value, printed)
  | .error _ => (.symbol printed, printed)

def messageOf (payload : List UInt8) : String :=
  match Sexp.readBytes payload with
  | .ok value => value.displayText
  | .error _ => Utf8.decodeLossy payload

inductive Tag where
  | result
  | error
  | abort
  | unknown
  deriving DecidableEq, Repr

/-- The tag is a symbol or a string in any case. -/
def tagOf (payload : List UInt8) : Tag :=
  match Sexp.readBytes payload with
  | .ok value =>
    let name := value.designator?.getD ""
    if Text.sameIgnoringCase name "result" then .result
    else if Text.sameIgnoringCase name "error" then .error
    else if Text.sameIgnoringCase name "abort" then .abort
    else .unknown
  | .error _ => .unknown

/-- Reads the outcome from the socket. With `deferring`, the message of an error is not read. -/
def readOutcome (deferring : Bool) : LinkOp σ Outcome := do
  let payload ← awaitFrame
  match tagOf payload with
  | .result =>
    let (value, printed) := resultOf (← awaitFrame)
    return .result value printed
  | .error =>
    if deferring then return .deferred
    let message := messageOf (← awaitFrame)
    return .error ((← Op.get).clean message)
  | .abort => return .abort
  | .unknown =>
    Op.fail (.desynchronized ("Unhandled socket response type: " ++ Utf8.decodeLossy payload))

/-- The output up to the next token, put after `text`. -/
def outputToToken (splitter : Splitter) (text : String) (l : Link σ) :
    Except (Stop Report) String × Link σ :=
  match _h : l.peer.awaitPiece l.peer.coming with
  | (.ok piece, peer) =>
    let (split, splitter) := splitter.push piece
    let text := text ++ l.clean split.text
    if split.found then (.ok text, { l with peer := peer })
    else outputToToken splitter text { l with peer := peer }
  | (.error stop, peer) => (.error stop, { l with peer := peer })
termination_by l.peer.supply
decreasing_by exact Peer.awaitPiece_supply _h

section

variable (b : Behaviour σ)

/-- Asks for the call stack. The reply that follows the dump is read, and an error in it is left
as it is. -/
def fetchCallStack (depth : Nat) : LinkOp σ (List StackFrame) := do
  dropOutput b
  dropInbox b
  writeSocket b (callStackCommand depth)
  let l ← Op.get
  let dump ← (outputToToken (.start l.token) "" : LinkOp σ String)
  let _ ← readOutcome true
  writeSocket b resetLevelCommand
  return CallStack.parse dump

/-- Turns an error into a failure with the call stack. -/
def raise (message : String) : LinkOp σ α := do
  let frames ← fetchCallStack b (← Op.get).tuning.callStackDepth
  Op.fail (.raised message frames)

def execute (command : String) : LinkOp σ Sexp := do
  ensureUsable b
  dropInbox b
  noting do
    writeSocket b command
    match ← readOutcome false with
    | .result value _ => return value
    | .abort | .deferred => return .nil
    | .error message => raise b message

def resetToTopLevel : LinkOp σ Unit := do
  ensureUsable b
  dropOutput b
  noting (writeStdin b topLevelCommand)
  Op.modify fun l => { l with state := .idle }

end

@[simp] theorem state_note (l : Link σ) (report : Report) :
    (l.note report).state = if report.fatal then .failed else .errorRaised := rfl

end Link
end SlimeServer
