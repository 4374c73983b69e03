import SlimeServer.Evaluator.Debugger
/-!
# Messages to the editor

The values sent to the editor: printed text, results, replies to requests, and the opening and
closing of debugger levels.
-/
namespace SlimeServer

/-- The final reply to a request. -/
inductive Reply where
  | ok (value : Sexp)
  | abort (message : String)
  deriving DecidableEq, Repr

/-- The reply to the request with an id: `(:return (:ok value) id)` or
`(:return (:abort "message") id)`. -/
def Reply.toMessage (reply : Reply) (callId : Int64) : Sexp :=
  let body := match reply with
    | ok value => .list [.keyword "ok", value]
    | abort message => .list [.keyword "abort", .string message]
  .list [.keyword "return", body, .integer callId]

namespace Message

def thread : Sexp := .integer 0

def levelNumber (level : Nat) : Sexp := .integer (Int64.ofNat level)

def writeString (text : String) : Sexp := .list [.keyword "write-string", .string text]

def replResult (text : String) : Sexp :=
  .list [.keyword "write-string", .string text, .keyword "repl-result"]

/-- The message `(:debug thread level (message "" nil) restarts frames (id))`. -/
def debug (level : DebuggerLevel) : Sexp :=
  .list [.keyword "debug", thread, levelNumber level.level,
    .list [.string level.message, .string "", .nil], Recovery.allToSexp,
    StackFrame.listToSexp level.frames, .list [.integer level.callId]]

def debugActivate (level : Nat) : Sexp :=
  .list [.keyword "debug-activate", thread, levelNumber level, .nil]

def debugReturn (level : Nat) : Sexp :=
  .list [.keyword "debug-return", thread, levelNumber level, .nil]

end Message
end SlimeServer
