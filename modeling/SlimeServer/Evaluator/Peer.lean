import SlimeServer.Evaluator.Process
import SlimeServer.Operation
/-!
# The evaluator seen from the link

An evaluator is any machine that reacts to the lines written to it. What it does reaches the link
as a row of moments: output is queued, bytes arrive on the socket, the process ends, a poll
interval passes. A reaction adds moments to those still coming and says how many of them have
happened before the link goes on, so every interleaving of the evaluator with the link is the
behaviour of some machine. An operation that waits for something that never comes is stalled.
-/
namespace SlimeServer

inductive SocketEnd where
  | closed
  | failed (reason : String)
  deriving DecidableEq, Repr

/-- Something that happens on the evaluator's side. -/
inductive Moment where
  /-- A piece of output is queued. -/
  | output (piece : List UInt8)
  /-- The reader of the output stops and closes the queue. -/
  | outputEnds
  | received (piece : List UInt8)
  | socketEnds (how : SocketEnd)
  /-- The end of the process is noticed. -/
  | exits (code signal : Option Int)
  /-- From now on nothing can be written to the standard input. -/
  | stdinBreaks (reason : String)
  /-- From now on nothing can be written to the socket. -/
  | socketBreaks (reason : String)
  /-- A poll interval passes. -/
  | tick
  deriving DecidableEq, Repr

inductive Channel where
  | stdin
  | socket
  deriving DecidableEq, Repr

/-- What the bridge does that an evaluator may react to: it writes a line, looks at what has come
so far, or asks the process to terminate. -/
inductive Act where
  | line (channel : Channel) (text : String)
  | look
  | terminate
  deriving DecidableEq, Repr

/-- The moments that an act brings about, put after those already coming, and how many of all of
them happen before the link goes on. -/
structure Reaction where
  moments : List Moment
  elapse : Nat
  deriving DecidableEq, Repr

structure Behaviour (σ : Type) where
  react : σ → Act → σ × Reaction

/-- A running evaluator: its memory, the moments to come, and what has arrived from it. `sent`
holds the lines written to it, oldest first. -/
structure Peer (σ : Type) where
  memory : σ
  coming : List Moment
  queue : List (List UInt8)
  queueOpen : Bool
  inbox : List UInt8
  socketEnd : Option SocketEnd
  state : ProcessState
  stdinFault : Option String
  socketFault : Option String
  sent : List (Channel × String)

namespace Peer

variable {σ : Type}

def start (memory : σ) (coming : List Moment) : Peer σ :=
  ⟨memory, coming, [], true, [], none, .running, none, none, []⟩

/-- The evaluator as the link sees it after a moment. -/
def happen (p : Peer σ) : Moment → Peer σ
  | .output piece => if p.queueOpen then { p with queue := p.queue ++ [piece] } else p
  | .outputEnds => { p with queueOpen := false }
  | .received piece =>
    if p.socketEnd.isSome then p else { p with inbox := p.inbox ++ piece }
  | .socketEnds how => { p with socketEnd := p.socketEnd.or (some how) }
  | .exits code signal => { p with state := .exited code signal }
  | .stdinBreaks reason => { p with stdinFault := p.stdinFault.or (some reason) }
  | .socketBreaks reason => { p with socketFault := p.socketFault.or (some reason) }
  | .tick => p

def elapse (p : Peer σ) (count : Nat) : Peer σ :=
  (p.coming.take count).foldl happen { p with coming := p.coming.drop count }

def settle (p : Peer σ) : Peer σ := p.elapse p.coming.length

def act (b : Behaviour σ) (p : Peer σ) (a : Act) : Peer σ :=
  let (memory, reaction) := b.react p.memory a
  elapse { p with memory := memory, coming := p.coming ++ reaction.moments } reaction.elapse

def loss? (p : Peer σ) : Option Report := p.state.loss?

/-- What keeps a line from being written on a channel. -/
def fault? (p : Peer σ) : Channel → Option String
  | .stdin => p.stdinFault
  | .socket => p.socketFault

/-- Writes a line, or gives the reason why it cannot be written. -/
def write (b : Behaviour σ) (p : Peer σ) (channel : Channel) (text : String) :
    Except String (Peer σ) :=
  match p.fault? channel with
  | some reason => .error reason
  | none => .ok (act b { p with sent := p.sent ++ [(channel, text)] } (.line channel text))

def dropOutput (p : Peer σ) : Peer σ := { p with queue := [] }

def dropInbox (p : Peer σ) : Peer σ :=
  { p with inbox := [], socketEnd := p.socketEnd.map fun _ => .closed }

def supply (p : Peer σ) : Nat := p.queue.length + p.coming.length

/-- Waits for the next piece of output while `coming` happens. The end of the process counts when
a poll interval has passed, or when the queue is closed. -/
def awaitPiece (p : Peer σ) (coming : List Moment) :
    Except (Stop Report) (List UInt8) × Peer σ :=
  match p.queue with
  | piece :: rest => (.ok piece, { p with queue := rest, coming := coming })
  | [] =>
    if p.queueOpen then
      match coming with
      | [] => (.error (p.loss?.elim .stalled .failed), { p with coming := [] })
      | .tick :: later =>
        match p.loss? with
        | some report => (.error (.failed report), { p with coming := later })
        | none => awaitPiece p later
      | moment :: later => awaitPiece (p.happen moment) later
    else
      (.error (.failed (p.loss?.getD (.lost "Evaluator output reader stopped"))),
        { p with coming := coming })

def deliveries (p : Peer σ) : List Delivery :=
  (if p.inbox.isEmpty then [] else [.bytes p.inbox]) ++
    match p.socketEnd with
    | none => []
    | some .closed => [.closed]
    | some (.failed reason) => [.failed reason]

def bytesOf : List Delivery → List UInt8
  | [] => []
  | .bytes piece :: rest => piece ++ bytesOf rest
  | _ :: rest => bytesOf rest

/-- A read that failed is followed by the end of the stream. -/
def endAfter (error : FrameError) (how : Option SocketEnd) : Option SocketEnd :=
  match error with
  | .failed _ => some .closed
  | _ => how

/-- Waits for the next frame on the socket while `coming` happens. When the process is found to
have ended, the bytes read so far are lost. -/
def awaitFrame (p : Peer σ) (coming : List Moment) :
    Except (Stop Report) (List UInt8) × Peer σ :=
  match Frame.read p.deliveries with
  | .done payload rest => (.ok payload, { p with inbox := bytesOf rest, coming := coming })
  | .failed error rest =>
    (.error (.failed (.ofFrameError error)),
      { p with inbox := bytesOf rest, socketEnd := endAfter error p.socketEnd, coming := coming })
  | .starved =>
    match coming with
    | [] =>
      match p.loss? with
      | some report => (.error (.failed report), { p with inbox := [], coming := [] })
      | none => (.error .stalled, { p with coming := [] })
    | .tick :: later =>
      match p.loss? with
      | some report => (.error (.failed report), { p with inbox := [], coming := later })
      | none => awaitFrame p later
    | moment :: later => awaitFrame (p.happen moment) later

/-- Ends the process: it is asked to terminate, and killed when it has not ended after that. -/
def terminate (b : Behaviour σ) (p : Peer σ) : Peer σ :=
  if p.state.isExited then p
  else
    let p := (p.act b .terminate).settle
    if p.state.isExited then p else p.happen (.exits none (some 9))

theorem length_queue_happen (p : Peer σ) (m : Moment) :
    (p.happen m).queue.length ≤ p.queue.length + 1 := by
  cases m <;> simp only [happen] <;> first | omega | (split <;> simp)

/-- A piece that has come uses up supply. -/
theorem awaitPiece_supply {p q : Peer σ} {coming : List Moment} {piece : List UInt8}
    (h : p.awaitPiece coming = (.ok piece, q)) : q.supply < p.queue.length + coming.length := by
  fun_induction awaitPiece p coming with
  | case1 p coming head rest hq =>
    simp only [Prod.mk.injEq] at h
    obtain ⟨-, rfl⟩ := h
    simp [supply, hq]
  | case2 => simp at h
  | case3 => simp at h
  | case4 p hq _ later hl ih =>
    have := ih h
    simp only [List.length_cons]
    omega
  | case5 p hq _ moment later _ ih =>
    have := ih h
    have := p.length_queue_happen moment
    simp only [List.length_cons]
    omega
  | case6 => simp at h

end Peer
end SlimeServer
