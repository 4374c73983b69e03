import SlimeServer.Report
/-!
# Requests of the editor

A request is the list `(:emacs-rex form package thread id)`, whose form is a call. Anything else
the editor sends is not a request and is ignored.
-/
namespace SlimeServer

structure Request where
  operation : String
  args : List Sexp
  package : Option String
  thread : Sexp
  callId : Int64
  deriving DecidableEq, Repr

inductive Inbound where
  | request (request : Request)
  | other (value : Sexp)
  deriving DecidableEq, Repr

namespace Request

/-- The operator and the arguments of a call. -/
def callOf : Sexp → Except RequestError (String × List Sexp)
  | .list (.symbol name :: args) => .ok (name, args)
  | .list (head :: _) => .error (.malformed ("operator " ++ head.print ++ " is not a symbol"))
  | form => .error (.malformed ("form " ++ form.print ++ " is not a call"))

/-- The request that a five-element list stands for, whatever its first element is. -/
def ofSexp : Sexp → Except RequestError Request
  | .list [_, form, package, thread, id] =>
    match id with
    | .integer callId => do
      let (operation, args) ← callOf form
      return ⟨operation, args, package.designator?, thread, callId⟩
    | _ => .error (.malformed ("request id " ++ id.print ++ " is not an integer"))
  | .list items =>
    .error (.malformed
      s!"expected (:emacs-rex form package thread id), got {items.length} elements")
  | value => .error (.malformed ("expected a list, got " ++ value.print))

def toSexp (r : Request) : Sexp :=
  .list [.symbol ":emacs-rex", .list (.symbol r.operation :: r.args),
    (r.package.map Sexp.string).getD .nil, r.thread, .integer r.callId]

end Request

namespace Inbound

/-- A list headed by the symbol `:emacs-rex` in any case. -/
def isRequest : Sexp → Bool
  | .list (.symbol head :: _) => Text.sameIgnoringCase head ":emacs-rex"
  | _ => false

def ofSexp (value : Sexp) : Except RequestError Inbound :=
  if isRequest value then (Request.ofSexp value).map .request else .ok (.other value)

end Inbound
end SlimeServer
