import SlimeServer.Evaluator.Peer
import SlimeServer.Evaluator.Place
import SlimeServer.Text.Blank
/-!
# Process handles

The bridge's hold on an evaluator process: its standard input until it is closed, and its output
until someone takes it.
-/
namespace SlimeServer

structure Handle (σ : Type) where
  peer : Peer σ
  stdinOpen : Bool
  outputTaken : Bool

inductive StartError where
  | emptyCommand
  | failed (program : String) (fault : StartFault)
  deriving DecidableEq, Repr

def StartError.message : StartError → String
  | emptyCommand => "Empty evaluator command"
  | failed program fault => "Failed to spawn " ++ program ++ ": " ++ fault.message

namespace Handle

variable {σ : Type}

def start (peer : Peer σ) : Handle σ := ⟨peer, true, false⟩

def stdinClosed : String := "Evaluator stdin is closed"

/-- Writes a line to the standard input, without the white space at its ends. -/
def write (b : Behaviour σ) (h : Handle σ) (text : String) : Except String (Handle σ) :=
  if h.stdinOpen then
    (h.peer.write b .stdin (Text.trim text)).map fun peer => { h with peer := peer }
  else .error stdinClosed

def takeOutput (h : Handle σ) : Bool × Handle σ := (!h.outputTaken, { h with outputTaken := true })

def readOutput (h : Handle σ) (count : Nat) : List UInt8 × Handle σ :=
  let bytes := h.peer.queue.flatten
  (bytes.take count, { h with peer := { h.peer with queue := [bytes.drop count] } })

/-- Closes the standard input and ends the process; one that has ended is left as it is. -/
def terminate (b : Behaviour σ) (h : Handle σ) : Handle σ :=
  if h.peer.state.isExited then h
  else { h with peer := h.peer.terminate b, stdinOpen := false }

def settle (h : Handle σ) : Handle σ := { h with peer := h.peer.settle }

end Handle
end SlimeServer
