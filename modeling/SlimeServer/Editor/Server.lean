import SlimeServer.Editor.Operations
/-!
# The server

The payloads of an editor's connection are handled one after the other. A request ends with a
reply, or with a new debugger level when the evaluator failed it; whatever is not a request is
passed over. Connections are served in turn until a request asks the server to stop.
-/
namespace SlimeServer

/-- Work of the server: it returns, or waits for ever, but does not fail. -/
abbrev ServerOp (S α : Type) := Op S Empty α

namespace Exchange

variable {σ : Type}

def tell (x : Exchange σ) (message : Sexp) : Exchange σ := { x with sent := x.sent ++ [message] }

/-- Opens a debugger level for a failed request and shows it. -/
def enterDebugger (x : Exchange σ) (callId : Int64) (report : Report) : Exchange σ :=
  let level := x.session.debugger.nextLevel callId report
  let debugger := x.session.debugger.push callId report
  ({ x with session := { x.session with debugger := debugger } }.tell (Message.debug level)).tell
    (Message.debugActivate level.level)

end Exchange

section

variable {σ : Type} (site : Site σ)

def workOn (r : Request) : Handler σ Reply :=
  match EditorOperation.table.get? r.operation with
  | some operation => operation.handle site r.args
  | none => Op.fail (.unknownOperation r.operation)

def handleRequest (r : Request) : ServerOp (Exchange σ) Unit := fun x =>
  match workOn site r x with
  | (.ok reply, x) => (.ok (), x.tell (reply.toMessage r.callId))
  | (.error (.failed (.report report)), x) => (.ok (), x.enterDebugger r.callId report)
  | (.error (.failed error), x) =>
    (.ok (), x.tell ((Reply.abort error.message).toMessage r.callId))
  | (.error .stalled, x) => (.error .stalled, x)

/-- The request that a payload holds, if it holds one that is well formed. -/
def requestIn? (payload : List UInt8) : Option Request :=
  match Sexp.readBytes payload with
  | .ok value => match Inbound.ofSexp value with
    | .ok (.request r) => some r
    | _ => none
  | .error _ => none

/-- Handles a payload. One that holds no request is passed over. -/
def handlePayload (payload : List UInt8) : ServerOp (Exchange σ) Unit :=
  match requestIn? payload with
  | some r => handleRequest site r
  | none => pure ()

end

namespace Exchange

variable {σ : Type}

/-- Serves a connection: the payloads of its frames are handled until the stream ends or breaks
off, or a request asks the server to stop. -/
def serve (site : Site σ) (deliveries : List Delivery) (x : Exchange σ) :
    Except (Stop Empty) Unit × Exchange σ :=
  if x.session.stopping then (.ok (), x)
  else match _h : Frame.read deliveries with
    | .done payload rest =>
      match handlePayload site payload x with
      | (.ok (), x) => serve site rest x
      | (.error stop, x) => (.error stop, x)
    | _ => (.ok (), x)
termination_by volume deliveries
decreasing_by exact volume_read _h

end Exchange

/-- The frames written for messages. Writing stops at the first message that is too large for a
frame. -/
def framesOf : List Sexp → List (List UInt8)
  | [] => []
  | message :: rest =>
    match Frame.encode (Utf8.encode message.print) with
    | .ok frame => frame :: framesOf rest
    | .error _ => []

inductive Connection where
  /-- It was served, and these frames were written on it. -/
  | served (frames : List (List UInt8))
  /-- The server had already stopped. -/
  | refused
  deriving DecidableEq, Repr

namespace Session

variable {σ : Type}

/-- Serves connections in turn until the server is asked to stop. -/
def serveAll (site : Site σ) (s : Session σ) :
    List (List Delivery) → List Connection × Except (Stop Empty) Unit × Session σ
  | [] => ([], .ok (), s)
  | deliveries :: rest =>
    if s.stopping then
      let (connections, answer, s) := serveAll site s rest
      (.refused :: connections, answer, s)
    else
      match Exchange.serve site deliveries ⟨s, []⟩ with
      | (.ok (), x) =>
        let (connections, answer, s) := serveAll site x.session rest
        (.served (framesOf x.sent) :: connections, answer, s)
      | (.error stop, x) => ([.served (framesOf x.sent)], .error stop, x.session)

/-- Serves connections in turn, and gives up the evaluator once no more are to come. -/
def serve (site : Site σ) (s : Session σ) (connections : List (List Delivery)) :
    List Connection × Except (Stop Empty) Unit × Session σ :=
  match serveAll site s connections with
  | (served, .ok (), s) => (served, .ok (), s.shutdown)
  | (served, .error stop, s) => (served, .error stop, s)

end Session
end SlimeServer
