import SlimeServer.Editor.Message
/-!
# Reading the messages to the editor

How the messages are written down, which of them answer a request, and which open a debugger level.
-/
namespace SlimeServer

section

variable (value : Sexp) (message : String) (callId : Int64)

theorem Reply.toMessage_ok : (ok value).toMessage callId =
    .list [.symbol ":return", .list [.symbol ":ok", value], .integer callId] := rfl

theorem Reply.toMessage_abort : (abort message).toMessage callId =
    .list [.symbol ":return", .list [.symbol ":abort", .string message], .integer callId] := rfl

theorem StackFrame.listToSexp_eq (frames : List StackFrame) : listToSexp frames =
    .list (frames.map fun frame => .list [.integer (Int64.ofNat frame.index),
      .string frame.description, .list [.symbol ":restartable", .ofBool frame.restartable]]) := rfl

theorem Recovery.allToSexp_eq : allToSexp = .list [
    .list [.string "QUIT", .string "Quit to the SLIME top level"],
    .list [.string "CONTINUE", .string "Ignore the error and continue in the same stack level"],
    .list [.string "RESTART", .string "Restart the evaluator process"]] := rfl

end

namespace Message

section

variable (text : String) (level : DebuggerLevel) (number : Nat)

theorem writeString_eq :
    writeString text = .list [.symbol ":write-string", .string text] := rfl

theorem map_writeString (texts : List String) : texts.map writeString =
    texts.map (fun text => .list [.symbol ":write-string", .string text]) :=
  List.map_congr_left fun text _ => writeString_eq text

theorem replResult_eq : replResult text =
    .list [.symbol ":write-string", .string text, .symbol ":repl-result"] := rfl

theorem debug_eq : debug level = .list [.symbol ":debug", .integer 0,
    .integer (Int64.ofNat level.level), .list [.string level.message, .string "", .nil],
    Recovery.allToSexp, StackFrame.listToSexp level.frames, .list [.integer level.callId]] := rfl

theorem debugActivate_eq : debugActivate number =
    .list [.symbol ":debug-activate", .integer 0, .integer (Int64.ofNat number), .nil] := rfl

theorem debugReturn_eq : debugReturn number =
    .list [.symbol ":debug-return", .integer 0, .integer (Int64.ofNat number), .nil] := rfl

end

def answered? : Sexp → Option Int64
  | .list [head, _, .integer callId] => if head = .keyword "return" then some callId else none
  | _ => none

def opens : Sexp → Bool
  | .list (head :: _) => head = .keyword "debug" ∨ head = .keyword "debug-activate"
  | _ => false

/-- What is sent for a level that a recovery has closed. -/
def closed (level : DebuggerLevel) : List Sexp :=
  [debugReturn level.level, (Reply.abort level.message).toMessage level.callId]

def answeredIds (messages : List Sexp) : List Int64 := messages.filterMap answered?

theorem closed_eq (level : DebuggerLevel) : closed level = [
    .list [.symbol ":debug-return", .integer 0, .integer (Int64.ofNat level.level), .nil],
    .list [.symbol ":return", .list [.symbol ":abort", .string level.message],
      .integer level.callId]] := by
  rw [closed, debugReturn_eq, Reply.toMessage_abort]

theorem answeredIds_append (messages more : List Sexp) :
    answeredIds (messages ++ more) = answeredIds messages ++ answeredIds more :=
  List.filterMap_append

theorem answeredIds_eq_nil {messages : List Sexp} (h : ∀ m ∈ messages, answered? m = none) :
    answeredIds messages = [] :=
  List.filterMap_eq_nil_iff.2 h

section

variable (text : String) (level : DebuggerLevel) (number : Nat) (reply : Reply) (callId : Int64)

@[simp] theorem answered?_reply : answered? (reply.toMessage callId) = some callId := by
  simp [answered?, Reply.toMessage]

@[simp] theorem answered?_writeString : answered? (writeString text) = none := rfl

@[simp] theorem answered?_replResult : answered? (replResult text) = none := by
  simp [answered?, replResult, Sexp.keyword]

@[simp] theorem answered?_debug : answered? (debug level) = none := rfl

@[simp] theorem answered?_debugActivate : answered? (debugActivate number) = none := rfl

@[simp] theorem answered?_debugReturn : answered? (debugReturn number) = none := rfl

theorem answeredIds_closed : answeredIds (closed level) = [level.callId] := by
  rw [closed_eq]
  rfl

@[simp] theorem opens_reply : opens (reply.toMessage callId) = false := by
  simp [opens, Reply.toMessage, Sexp.keyword]

@[simp] theorem opens_writeString : opens (writeString text) = false := by
  simp [opens, writeString, Sexp.keyword]

@[simp] theorem opens_replResult : opens (replResult text) = false := by
  simp [opens, replResult, Sexp.keyword]

@[simp] theorem opens_debugReturn : opens (debugReturn number) = false := by
  simp [opens, debugReturn, Sexp.keyword]

end

end Message

end SlimeServer
