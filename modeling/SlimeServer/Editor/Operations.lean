import SlimeServer.Editor.Message
import SlimeServer.Editor.Request
import SlimeServer.Editor.Table
import SlimeServer.Session
import SlimeServer.Text.Lowercase
/-!
# Operations of the editor

What the bridge does for each operation. Evaluation and introspection go to the evaluator;
operations that it has no counterpart for are answered so that the editor keeps working.
-/
namespace SlimeServer

/-- A session at work on one request, with the messages sent to the editor so far, oldest
first. -/
structure Exchange (σ : Type) where
  session : Session σ
  sent : List Sexp

abbrev Handler (σ α : Type) := Op (Exchange σ) RequestError α

namespace Handler

variable {σ α : Type}

def send (message : Sexp) : Handler σ Unit :=
  Op.modify fun x => { x with sent := x.sent ++ [message] }

def sendAll (messages : List Sexp) : Handler σ Unit :=
  Op.modify fun x => { x with sent := x.sent ++ messages }

def onSession (op : SessionOp σ α) : Handler σ α := fun x =>
  match op x.session with
  | (.ok a, s) => (.ok a, { x with session := s })
  | (.error stop, s) => (.error (stop.map .report), { x with session := s })

def onLink (op : LinkOp σ α) : Handler σ α := onSession (Session.onLink op)

/-- An argument of the wrong kind or none. -/
def badArgument (operation : String) (index : Nat) (expected : String) (got : Option Sexp) :
    RequestError :=
  .invalidArguments operation <| match got with
    | some value => s!"argument {index} must be {expected}, got " ++ value.print
    | none => s!"missing argument {index}"

/-- A string or symbol argument, quoted or not. -/
def textArg (operation : String) (args : List Sexp) (index : Nat) : Handler σ String :=
  let value? := args[index]?.map Sexp.unquote
  Op.ofOption (badArgument operation index "a string" value?) (value?.bind Sexp.designator?)

def integerArg (operation : String) (args : List Sexp) (index : Nat) : Handler σ Int64 :=
  let value? := args[index]?
  Op.ofOption (badArgument operation index "an integer" value?) (value?.bind Sexp.integer?)

/-- The number of a debugger level, which is positive. -/
def levelArg (operation : String) (args : List Sexp) (index : Nat) : Handler σ Nat := do
  let level ← integerArg operation args index
  if 0 < level.toInt then return level.toInt.toNat
  else Op.fail (.invalidArguments operation s!"invalid debugger level {level.toInt}")

/-- The messages that the printed text of an evaluation is sent as. -/
def textMessages (items : List EvalItem) : List Sexp :=
  items.filterMap fun
    | .text text => some (Message.writeString text)
    | _ => none

def printedResult (items : List EvalItem) : Option String :=
  (items.filterMap fun
    | .result _ printed => some printed
    | _ => none).getLast?

/-- Follows an evaluation to its end and sends what it prints to the editor. -/
def follow (b : Behaviour σ) (e : Evaluation) : Handler σ (Option String) := fun x =>
  match x.session.link with
  | none => (.error (.failed (.report Session.noEvaluator)), x)
  | some l =>
    let (items, answer, l) := e.rest b l
    let x : Exchange σ :=
      ⟨{ x.session with link := some l }, x.sent ++ textMessages items⟩
    match answer with
    | .ok () => (.ok (printedResult items), x)
    | .error stop => (.error (stop.map .report), x)

section

variable (site : Site σ)

def evaluate (form : String) : Handler σ (Option String) := do
  let e ← onLink (Link.eval site.behaviour form)
  follow site.behaviour e

/-- Runs a command over the socket. An error of the evaluator is handed to `onError`, and the link
goes back to being idle. -/
def executeOr (command : String) (onError : Report → Handler σ α) (onValue : Sexp → Handler σ α) :
    Handler σ α := fun x =>
  match onLink (Link.execute site.behaviour command) x with
  | (.ok value, x) => onValue value x
  | (.error (.failed (.report report)), x) =>
    if report.fatal then (.error (.failed (.report report)), x)
    else
      let s := { x.session with link := x.session.link.map Link.acknowledge }
      onError report { x with session := s }
  | (.error stop, x) => (.error stop, x)

def introspect (command : String) : Handler σ Reply :=
  executeOr site command
    (fun report => return .abort report.message)
    (fun value => return .ok (.string (Text.trim value.displayText)))

/-- Applies a recovery to a level and answers the request that opened it. A failure of the
recovery goes into the reply. -/
def recover (level : Nat) (recovery : Recovery) : Handler σ Reply := do
  let (closed, failure?) ← (fun x =>
    let (answer, s) := Session.recover site level recovery x.session
    (answer, { x with session := s }) : Handler σ (DebuggerLevel × Option Report))
  send (Message.debugReturn closed.level)
  send ((Reply.abort closed.message).toMessage closed.callId)
  return .abort ((failure?.map Report.message).getD "NIL")

def recoverInnermost (recovery : Recovery) : Handler σ Reply := do
  match (← Op.get).session.debugger.innermost? with
  | some innermost => recover site innermost.level recovery
  | none => return .abort "NIL"

def protocolVersion : String := "2.20"

/-- What the editor is told about the bridge and the evaluator. -/
def connectionInfo : Handler σ Reply := do
  let version ← onLink (Link.execute site.behaviour "(lisp-implementation-version)")
  let name := Sexp.string (← Op.get).session.settings.implementation
  let machine := Sexp.string site.machine
  return .ok (.plist [
    ("pid", .integer site.processId),
    ("style", .nil),
    ("encoding", .plist [
      ("coding-systems", .list [.string "utf-8-unix", .string "iso-latin-1-unix"])]),
    ("lisp-implementation", .plist [
      ("type", name), ("name", name), ("version", version), ("program", .nil)]),
    ("machine", .plist [("type", machine), ("version", machine)]),
    ("package", .plist [("name", name), ("prompt", name)]),
    ("version", .string protocolVersion)])

/-- The package and the prompt of a new read loop. -/
def createRepl : Handler σ Reply := do
  let name := Sexp.string (← Op.get).session.settings.implementation
  return .ok (.list [name, name])

def interactiveEval (args : List Sexp) : Handler σ Reply := do
  let form ← textArg "swank:interactive-eval" args 0
  let printed? ← evaluate site form
  return .ok (.string (printed?.getD "; No value"))

def listenerEval (args : List Sexp) : Handler σ Reply := do
  let form ← textArg "swank-repl:listener-eval" args 0
  match ← evaluate site form with
  | some printed => sendAll [Message.replResult printed, Message.replResult "\n"]
  | none => pure ()
  return .ok .nil

def compilationResult : Sexp :=
  .list [.keyword "compilation-result", .nil, .truth, .float (.ofDecimal false 1 (-2)), .nil, .nil]

def compileString (args : List Sexp) : Handler σ Reply := do
  let form ← textArg "swank:compile-string-for-emacs" args 0
  let _ ← evaluate site form
  return .ok compilationResult

def loadForm (path : String) : String := "(load " ++ (Sexp.string path).print ++ ")"

def compileFile (args : List Sexp) : Handler σ Reply := do
  let path ← textArg "swank:compile-file-for-emacs" args 0
  let _ ← evaluate site (loadForm path)
  return .ok compilationResult

def describeSymbol (args : List Sexp) : Handler σ Reply := do
  let name ← textArg "swank:describe-symbol" args 0
  introspect site ("(with-output-to-string (s) (describe '" ++ name ++ " s))")

def describeFunction (args : List Sexp) : Handler σ Reply := do
  let name ← textArg "swank:describe-function" args 0
  introspect site ("(documentation '" ++ name ++ ")")

def expandOnce (args : List Sexp) : Handler σ Reply := do
  let form ← textArg "swank:swank-expand-1" args 0
  introspect site ("(with-output-to-string (s) (pprint (macroexpand '" ++ form ++ ") s))")

def lookupCommand (start : String) : String :=
  "(mapcar #'string (apropos-list " ++ (Sexp.string start).print ++ "))"

/-- The names without those equal to the one before. -/
def dropRepeats : List String → List String
  | [] => []
  | [name] => [name]
  | a :: b :: rest => if a = b then dropRepeats (b :: rest) else a :: dropRepeats (b :: rest)

def sortedNames (names : List String) : List String :=
  dropRepeats (names.mergeSort fun a b => a ≤ b)

/-- The names in a looked-up value that start as wanted, in lower case. -/
def candidates (start : String) (found : Sexp) : List String :=
  let wanted := (Text.lowercase start).toList
  let names := ((found.items?.getD []).filterMap Sexp.designator?).map Text.lowercase
  sortedNames (names.filter fun name => wanted.isPrefixOf name.toList)

/-- The names that complete a text; none when the evaluator raises an error over it. -/
def completions (start : String) : Handler σ (List String) :=
  executeOr site (lookupCommand start)
    (fun _ => return [])
    (fun found => return candidates start found)

def completionReply (names : List String) (common : String) : Reply :=
  .ok (.list [.list (names.map Sexp.string), .string common])

def simpleCompletions (args : List Sexp) : Handler σ Reply := do
  let start ← textArg "swank:simple-completions" args 0
  let names ← completions site start
  let common := match names with
    | [only] => only
    | _ => start
  return completionReply names common

def fuzzyMinimum : Nat := 2

/-- The bound on the count of completions, where the fourth argument gives one. -/
def completionLimit? (args : List Sexp) : Option Nat := do
  let limit ← args[3]?.bind Sexp.integer?
  if 0 ≤ limit.toInt then some limit.toInt.toNat else none

def fuzzyCompletions (args : List Sexp) : Handler σ Reply := do
  let start ← textArg "swank:fuzzy-completions" args 0
  if start.length < fuzzyMinimum then return .ok .nil
  let names ← completions site start
  let shown := match completionLimit? args with
    | some limit => names.take limit
    | none => names
  return completionReply shown start

def invokeRestart (args : List Sexp) : Handler σ Reply := do
  let operation := "swank:invoke-nth-restart-for-emacs"
  let level ← levelArg operation args 0
  let index ← integerArg operation args 1
  let recovery ← Op.ofOption
    (.invalidArguments operation s!"no restart numbered {index.toInt}")
    (Recovery.ofIndex? index.toInt)
  recover site level recovery

def quitLisp : Handler σ Reply := do
  Op.modify fun x => { x with session := x.session.shutdown.requestStop }
  return .ok .nil

end

end Handler

inductive EditorOperation where
  | connectionInfo
  | createRepl
  | acknowledge
  | interactiveEval
  | listenerEval
  | compileString
  | compileFile
  | describeSymbol
  | describeFunction
  | expandOnce
  | simpleCompletions
  | fuzzyCompletions
  | autodoc
  | operatorArglist
  | invokeRestart
  | quitInnermost
  | resumeInnermost
  | quitLisp
  deriving DecidableEq, Repr

namespace EditorOperation

def names : List (String × EditorOperation) := [
  ("swank:connection-info", connectionInfo),
  ("swank:create-repl", createRepl),
  ("swank-repl:create-repl", createRepl),
  ("swank:buffer-first-change", acknowledge),
  ("swank:swank-require", acknowledge),
  ("swank:init-presentations", acknowledge),
  ("swank:inspect-current-condition", acknowledge),
  ("swank:find-definitions-for-emacs", acknowledge),
  ("swank:complete-form", acknowledge),
  ("swank:backtrace", acknowledge),
  ("swank:eval", interactiveEval),
  ("swank:interactive-eval", interactiveEval),
  ("swank:interactive-eval-region", interactiveEval),
  ("swank:pprint-eval", interactiveEval),
  ("swank-repl:listener-eval", listenerEval),
  ("swank:compile-string-for-emacs", compileString),
  ("swank:compile-notes-for-emacs", compileString),
  ("swank:compile-file-for-emacs", compileFile),
  ("swank:describe-symbol", describeSymbol),
  ("swank:describe-definition-for-emacs", describeSymbol),
  ("swank:describe-function", describeFunction),
  ("swank:swank-expand-1", expandOnce),
  ("swank:simple-completions", simpleCompletions),
  ("swank:fuzzy-completions", fuzzyCompletions),
  ("swank:autodoc", autodoc),
  ("swank:operator-arglist", operatorArglist),
  ("swank:invoke-nth-restart-for-emacs", invokeRestart),
  ("swank:sldb-abort", quitInnermost),
  ("swank:throw-to-toplevel", quitInnermost),
  ("swank:sldb-continue", resumeInnermost),
  ("swank:quit-lisp", quitLisp)]

/-- Every name with its operation. It is opened by looking names up in it only: there are many to
compare with. -/
@[irreducible] def table : Table EditorOperation := .ofList names

variable {σ : Type}

def handle (site : Site σ) (operation : EditorOperation) (args : List Sexp) : Handler σ Reply :=
  match operation with
  | connectionInfo => Handler.connectionInfo site
  | createRepl => Handler.createRepl
  | acknowledge => return .ok .nil
  | interactiveEval => Handler.interactiveEval site args
  | listenerEval => Handler.listenerEval site args
  | compileString => Handler.compileString site args
  | compileFile => Handler.compileFile site args
  | describeSymbol => Handler.describeSymbol site args
  | describeFunction => Handler.describeFunction site args
  | expandOnce => Handler.expandOnce site args
  | simpleCompletions => Handler.simpleCompletions site args
  | fuzzyCompletions => Handler.fuzzyCompletions site args
  | autodoc => return .ok (.list [.keyword "not-available", .truth])
  | operatorArglist => return .ok (.string "")
  | invokeRestart => Handler.invokeRestart site args
  | quitInnermost => Handler.recoverInnermost site .quit
  | resumeInnermost => Handler.recoverInnermost site .resume
  | quitLisp => Handler.quitLisp

end EditorOperation
end SlimeServer
