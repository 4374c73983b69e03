import SlimeServer.Proofs.Editor.Operations
import SlimeServer.Proofs.Editor.Run
import SlimeServer.Proofs.Editor.Table
import SlimeServer.Proofs.Evaluator.Evaluation
/-!
# Requests that are refused

An operation looks at its arguments, and at the level it is to close, before it asks the evaluator
or changes anything. What it asks the evaluator for fails with reports only. So a request that is
refused, because its operation is unknown or its arguments are no good, has changed nothing, and one
reply is all that comes of it.
-/
namespace SlimeServer

variable {σ : Type}

def RequestError.IsComplaint (error : RequestError) : Prop :=
  (∃ name, error = .unknownOperation name) ∨
    ∃ operation message, error = .invalidArguments operation message

theorem RequestError.isComplaint_invalidArguments (operation message : String) :
    (invalidArguments operation message).IsComplaint :=
  .inr ⟨operation, message, rfl⟩

namespace Handler

open Op (Upholds)

variable {α β : Type} {site : Site σ}

def untouched (x : Exchange σ) : Contract (Exchange σ) RequestError where
  kept y := y = x
  failed error y := error.IsComplaint ∧ y = x
  waiting y := y = x

def reporting : Contract (Exchange σ) RequestError where
  kept _ := True
  failed error _ := ∃ report, error = .report report
  waiting _ := True

/-- Work that changes nothing where it is refused, and is refused only for a fault of the
request. -/
def Atomic (op : Handler σ α) : Prop :=
  ∀ x error y, op x = (.error (.failed error), y) → error.IsRefusal → error.IsComplaint ∧ y = x

theorem atomic_of_reporting {op : Handler σ α} (h : Upholds reporting op) : Atomic op := by
  intro x error y hrun hrefusal
  obtain ⟨report, hreport⟩ := h x _ y hrun trivial
  exact absurd hreport (hrefusal report)

/-- Work is atomic where all that is done before it is to look. -/
theorem Atomic.after {op : Handler σ α} {next : α → Handler σ β}
    (h : ∀ x, Upholds (untouched x) op) (hn : ∀ a, Atomic (next a)) : Atomic (op >>= next) := by
  intro x error z hrun hrefusal
  rw [Op.bind_apply] at hrun
  cases hop : op x with
  | mk got y =>
    have hy := h x x got y hop rfl
    rw [hop] at hrun
    cases got with
    | ok a =>
      obtain rfl : y = x := hy
      exact hn a y error z hrun hrefusal
    | error stop =>
      cases hrun
      exact hy

section

variable {operation : String} {args : List Sexp} {index : Nat} {x : Exchange σ}

theorem untouched_invalid (message : String) :
    ∀ y, (untouched x).kept y → (untouched x).failed (.invalidArguments operation message) y :=
  fun _ hy => ⟨RequestError.isComplaint_invalidArguments operation message, hy⟩

theorem untouched_textArg : Upholds (untouched x) (textArg operation args index) :=
  Op.upholds_ofOption (untouched_invalid _) _

theorem untouched_integerArg : Upholds (untouched x) (integerArg operation args index) :=
  Op.upholds_ofOption (untouched_invalid _) _

theorem untouched_levelArg : Upholds (untouched x) (levelArg operation args index) := by
  refine untouched_integerArg.bind fun level => ?_
  split
  · exact Op.upholds_pure _
  · exact Op.upholds_fail (untouched_invalid _)

end

theorem reporting_onLink (op : LinkOp σ α) : Upholds reporting (onLink op) := by
  intro x got y hrun _
  cases hx : x.session.link with
  | none =>
    rw [onLink_none hx] at hrun
    cases hrun
    exact ⟨_, rfl⟩
  | some l =>
    rw [onLink_some hx] at hrun
    cases hrun
    generalize (op l).1 = answer
    cases answer with
    | ok a => trivial
    | error stop =>
      cases stop with
      | failed report => exact ⟨report, rfl⟩
      | stalled => trivial

theorem reporting_follow (e : Evaluation) : Upholds reporting (follow site.behaviour e) := by
  intro x got y hrun _
  cases hx : x.session.link with
  | none =>
    rw [follow_none hx] at hrun
    cases hrun
    exact ⟨_, rfl⟩
  | some l =>
    cases hrest : e.rest site.behaviour l with
    | mk items result =>
      obtain ⟨answer, l'⟩ := result
      rw [follow_eq hx hrest] at hrun
      cases hrun
      cases answer with
      | ok u => trivial
      | error stop =>
        cases stop with
        | failed report => exact ⟨report, rfl⟩
        | stalled => trivial

theorem reporting_evaluate (form : String) : Upholds reporting (evaluate site form) :=
  (reporting_onLink _).bind fun e => reporting_follow e

theorem reporting_executeOr {command : String} {onError : Report → Handler σ α}
    {onValue : Sexp → Handler σ α} (he : ∀ report, Upholds reporting (onError report))
    (hv : ∀ value, Upholds reporting (onValue value)) :
    Upholds reporting (executeOr site command onError onValue) := by
  intro x got z hrun _
  unfold executeOr at hrun
  cases hexecute : onLink (Link.execute site.behaviour command) x with
  | mk answer y =>
    have hy := reporting_onLink _ x answer y hexecute trivial
    rw [hexecute] at hrun
    cases answer with
    | ok value => exact hv value y got z hrun trivial
    | error stop =>
      cases stop with
      | stalled =>
        cases hrun
        trivial
      | failed error =>
        obtain ⟨report, rfl⟩ := hy
        simp only at hrun
        split at hrun
        · cases hrun
          exact ⟨report, rfl⟩
        · exact he report _ got z hrun trivial

theorem reporting_introspect (command : String) : Upholds reporting (introspect site command) :=
  reporting_executeOr (fun _ => Op.upholds_pure _) (fun _ => Op.upholds_pure _)

theorem reporting_completions (start : String) : Upholds reporting (completions site start) :=
  reporting_executeOr (fun _ => Op.upholds_pure _) (fun _ => Op.upholds_pure _)

/-- A level that is not open is found at fault before anything is closed. -/
theorem atomic_recover (level : Nat) (recovery : Recovery) :
    Atomic (recover site level recovery) := by
  intro x error y hrun hrefusal
  cases hx : x.session.debugger.get? level with
  | none =>
    obtain ⟨message, hrefused⟩ : ∃ message, recover site level recovery x = (.error (.failed
        (.invalidArguments "swank:invoke-nth-restart-for-emacs" message)), x) := recover_none hx
    rw [hrefused] at hrun
    cases hrun
    exact ⟨RequestError.isComplaint_invalidArguments _ _, rfl⟩
  | some closed =>
    cases hp : Session.perform site recovery
        { x.session with debugger := x.session.debugger.closeFrom level } with
    | mk got s =>
      obtain ⟨hstalled, hdone⟩ := recover_some hx hp
      by_cases hgot : got = .error .stalled
      · rw [hstalled hgot] at hrun
        cases hrun
      · rw [hdone hgot] at hrun
        cases hrun

theorem atomic_recoverInnermost (recovery : Recovery) :
    Atomic (recoverInnermost site recovery) := by
  refine Atomic.after (fun _ => Op.upholds_get) fun x => ?_
  cases x.session.debugger.innermost? with
  | none => exact atomic_of_reporting (Op.upholds_pure _)
  | some innermost => exact atomic_recover _ _

theorem atomic_invokeRestart (args : List Sexp) : Atomic (invokeRestart site args) :=
  Atomic.after (fun _ => untouched_levelArg) fun _ =>
    Atomic.after (fun _ => untouched_integerArg) fun _ =>
      Atomic.after (fun _ => Op.upholds_ofOption (untouched_invalid _) _) fun _ =>
        atomic_recover _ _

theorem atomic_textArg {operation : String} {args : List Sexp} {index : Nat}
    {next : String → Handler σ α} (h : ∀ text, Upholds reporting (next text)) :
    Atomic (textArg operation args index >>= next) :=
  Atomic.after (fun _ => untouched_textArg) fun text => atomic_of_reporting (h text)

theorem atomic_evaluating {operation : String} {args : List Sexp} (form : String → String)
    (reply : Option String → Reply) :
    Atomic (do
      let text ← textArg operation args 0
      let printed? ← evaluate site (form text)
      return reply printed? : Handler σ Reply) :=
  atomic_textArg fun _ => (reporting_evaluate _).bind fun _ => Op.upholds_pure _

theorem atomic_listenerEval (args : List Sexp) : Atomic (listenerEval site args) := by
  refine atomic_textArg fun form => (reporting_evaluate form).bind fun printed? => ?_
  cases printed? with
  | none => exact Op.upholds_pure _
  | some printed => exact (Op.upholds_modify fun _ _ => trivial).bind fun _ => Op.upholds_pure _

theorem atomic_fuzzyCompletions (args : List Sexp) : Atomic (fuzzyCompletions site args) := by
  refine atomic_textArg fun start => ?_
  split
  · exact Op.upholds_pure _
  · exact (reporting_completions start).bind fun _ => Op.upholds_pure _

theorem atomic_handle (operation : EditorOperation) (args : List Sexp) :
    Atomic (operation.handle site args) := by
  cases operation with
  | connectionInfo =>
    exact atomic_of_reporting ((reporting_onLink _).bind fun _ => Op.upholds_get.bind fun _ =>
      Op.upholds_pure _)
  | createRepl => exact atomic_of_reporting (Op.upholds_get.bind fun _ => Op.upholds_pure _)
  | acknowledge => exact atomic_of_reporting (Op.upholds_pure _)
  | interactiveEval => exact atomic_evaluating id _
  | listenerEval => exact atomic_listenerEval args
  | compileString => exact atomic_evaluating id _
  | compileFile => exact atomic_evaluating loadForm _
  | describeSymbol => exact atomic_textArg fun _ => reporting_introspect _
  | describeFunction => exact atomic_textArg fun _ => reporting_introspect _
  | expandOnce => exact atomic_textArg fun _ => reporting_introspect _
  | simpleCompletions =>
    exact atomic_textArg fun start => (reporting_completions start).bind fun _ => Op.upholds_pure _
  | fuzzyCompletions => exact atomic_fuzzyCompletions args
  | autodoc => exact atomic_of_reporting (Op.upholds_pure _)
  | operatorArglist => exact atomic_of_reporting (Op.upholds_pure _)
  | invokeRestart => exact atomic_invokeRestart args
  | quitInnermost => exact atomic_recoverInnermost _
  | resumeInnermost => exact atomic_recoverInnermost _
  | quitLisp =>
    exact atomic_of_reporting ((Op.upholds_modify fun _ _ => trivial).bind fun _ =>
      Op.upholds_pure _)

theorem atomic_workOn (r : Request) : Atomic (workOn site r) := by
  unfold workOn
  split
  · exact atomic_handle _ _
  · intro x error y hrun _
    cases hrun
    exact ⟨.inl ⟨r.operation, rfl⟩, rfl⟩

end Handler

section

variable {site : Site σ} {r : Request} {x y : Exchange σ} {error : RequestError}

/-- A request that fails otherwise than with a report fails because its operation is unknown or its
arguments are no good. It is answered with one message, and the session is left as it was, the link
to the evaluator and all that was written to it among the rest. -/
theorem refused_request_keeps_session (h : workOn site r x = (.error (.failed error), y))
    (hrefusal : error.IsRefusal) :
    ((∃ name, error = .unknownOperation name) ∨
      ∃ operation message, error = .invalidArguments operation message) ∧
    handleRequest site r x = (.ok (),
      { session := x.session
        sent := x.sent ++ [(Reply.abort error.message).toMessage r.callId] }) := by
  obtain ⟨hcomplaint, rfl⟩ := Handler.atomic_workOn r x error y h hrefusal
  refine ⟨hcomplaint, ?_⟩
  rw [handleRequest, h]
  cases error with
  | report report => exact absurd rfl (hrefusal report)
  | _ => rfl

end

def strayRestart : Request :=
  ⟨"swank:invoke-nth-restart-for-emacs", [.integer 2, .integer 0], none, .truth, 7⟩

/-- One level is open, over a link in the error state. -/
def openedExchange : Exchange Unit :=
  ⟨{ Session.start Config.Layer.empty.resolve with
      link := some
        { Link.connected (.start () []) 4005 Config.Layer.empty.resolve.tuning with
          state := .errorRaised }
      debugger := Debugger.empty.push 3 (.raised "unbound variable x" []) }, []⟩

theorem refused_request_stray :
    workOn (.barren (.answering [] [])) strayRestart openedExchange = (.error (.failed
      (.invalidArguments "swank:invoke-nth-restart-for-emacs" "no debugger session at level 2")),
      openedExchange) ∧
    handleRequest (.barren (.answering [] [])) strayRestart openedExchange = (.ok (),
      { openedExchange with sent := [(Reply.abort ("Invalid arguments for " ++
        "swank:invoke-nth-restart-for-emacs: no debugger session at level 2")).toMessage 7] }) := by
  have hop : EditorOperation.table.get? strayRestart.operation = some .invokeRestart :=
    EditorOperation.get?_invokeRestart
  have hstray : Session.recover (.barren (.answering [] [])) 2 .quit openedExchange.session =
      (.error (.failed (.invalidArguments "swank:invoke-nth-restart-for-emacs"
        "no debugger session at level 2")), openedExchange.session) := rfl
  have hwork : workOn (.barren (.answering [] [])) strayRestart openedExchange =
      (.error (.failed (.invalidArguments "swank:invoke-nth-restart-for-emacs"
        "no debugger session at level 2")), openedExchange) := by
    rw [workOn_eq hop]
    exact Handler.recover_error hstray
  exact ⟨hwork, (refused_request_keeps_session hwork
    (RequestError.isRefusal_invalidArguments _ _)).2⟩

end SlimeServer
