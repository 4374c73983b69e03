import SlimeServer.Frame
import SlimeServer.Sexp.Printer
import SlimeServer.Sexp.Reader
/-!
# Failures

A report is what an operation of the evaluator fails with. A fatal one means that the evaluator
can no longer be talked to and only a restart helps; any other is an error raised by the evaluator
itself. Requests of the editor fail with a `RequestError`.
-/
namespace SlimeServer

structure StackFrame where
  index : Nat
  description : String
  restartable : Bool
  deriving DecidableEq, Repr

namespace StackFrame

/-- The value `(index "description" (:restartable nil))`. -/
def toSexp (frame : StackFrame) : Sexp :=
  .list [.integer (Int64.ofNat frame.index), .string frame.description,
    .plist [("restartable", .ofBool frame.restartable)]]

def listToSexp (frames : List StackFrame) : Sexp := .list (frames.map toSexp)

end StackFrame

structure Report where
  message : String
  frames : List StackFrame
  fatal : Bool
  deriving DecidableEq, Repr

namespace Report

def lost (message : String) : Report := ⟨message, [], true⟩

def raised (message : String) (frames : List StackFrame) : Report := ⟨message, frames, false⟩

def desynchronized (message : String) : Report :=
  lost ("Protocol desynchronization: " ++ message)

def ofFrameError : FrameError → Report
  | .connectionClosed => lost "Socket connection closed"
  | .failed reason => lost ("Socket error: " ++ reason)
  | error => desynchronized error.message

@[simp] theorem fatal_lost (message : String) : (lost message).fatal = true := rfl

@[simp] theorem fatal_ofFrameError (error : FrameError) : (ofFrameError error).fatal = true := by
  cases error <;> rfl

end Report

/-- Why a request of the editor gets no reply of its own. -/
inductive RequestError where
  | report (report : Report)
  | unknownOperation (name : String)
  | invalidArguments (operation message : String)
  | malformed (message : String)
  | frame (error : FrameError)
  | unreadable (error : ReadError)
  | failed (reason : String)
  deriving DecidableEq, Repr

def RequestError.message : RequestError → String
  | report r => r.message
  | unknownOperation name => "Unknown operation: " ++ name
  | invalidArguments operation message =>
    "Invalid arguments for " ++ operation ++ ": " ++ message
  | malformed message => "Malformed request: " ++ message
  | frame error => "Frame error: " ++ error.message
  | unreadable error => "S-expression error: " ++ error.message
  | failed reason => "IO error: " ++ reason

end SlimeServer
