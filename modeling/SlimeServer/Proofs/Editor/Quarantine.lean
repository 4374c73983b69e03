import SlimeServer.Proofs.Editor.Operations
import SlimeServer.Proofs.Editor.Run
import SlimeServer.Proofs.Editor.Table
import SlimeServer.Proofs.Evaluator.Evaluation
import SlimeServer.Proofs.Evaluator.Failed
/-!
# The editor over a failed link

Once its link has failed, a session leaves it as it is until the evaluator is given up. Meanwhile a
request opens a debugger level exactly when it asks the evaluator.
-/
namespace SlimeServer

open Op (Obeys)

variable {σ : Type}

namespace Session

def growing : Law (Session σ) :=
  .ofRelation (fun s t => s.retired <+: t.retired) (fun _ => List.prefix_rfl) List.IsPrefix.trans

def Quarantines (s t : Session σ) : Prop :=
  s.retired <+: t.retired ∧ ∀ l, s.link = some l → l.state = .failed →
    t.link = some l ∧ t.retired = s.retired ∨ s.retired ++ [l.peer] <+: t.retired

theorem quarantines_refl (s : Session σ) : s.Quarantines s :=
  ⟨List.prefix_rfl, fun _ hl _ => .inl ⟨hl, rfl⟩⟩

theorem Quarantines.trans {s t u : Session σ} (h : s.Quarantines t) (h' : t.Quarantines u) :
    s.Quarantines u := by
  refine ⟨h.1.trans h'.1, fun l hl hf => ?_⟩
  rcases h.2 l hl hf with ⟨hlink, hretired⟩ | hgone
  · rw [← hretired]
    exact h'.2 l hlink hf
  · exact .inr (hgone.trans h'.1)

def quarantine : Law (Session σ) := .ofRelation Quarantines quarantines_refl Quarantines.trans

theorem quarantines_of_usable {s t : Session σ} (h : s.retired <+: t.retired)
    (hs : ∀ l, s.link = some l → l.state ≠ .failed) : s.Quarantines t :=
  ⟨h, fun l hl hf => absurd hf (hs l hl)⟩

theorem quarantines_of_same {s t : Session σ} (hlink : t.link = s.link)
    (hretired : t.retired = s.retired) : s.Quarantines t :=
  ⟨hretired ▸ List.prefix_rfl, fun _ hl _ => .inl ⟨hlink ▸ hl, hretired⟩⟩

theorem quarantines_retire (s : Session σ) {t : Session σ}
    (h : s.retire.retired <+: t.retired) : s.Quarantines t := by
  refine ⟨(List.prefix_append _ _).trans h, fun l hl _ => .inr ?_⟩
  simp only [retire, hl, Option.map_some, Option.toList_some] at h
  exact h

variable {α : Type} {site : Site σ}

theorem quarantine_onLink {op : LinkOp σ α} (h : ∀ l, l.state = .failed → (op l).2 = l) :
    Obeys quarantine (onLink op) := by
  intro s
  unfold onLink
  cases hl : s.link with
  | none => exact s.quarantines_refl
  | some l =>
    refine ⟨List.prefix_rfl, fun l' hl' hf => .inl ⟨?_, rfl⟩⟩
    rw [hl] at hl'
    cases hl'
    exact congrArg some (h l hf)

theorem growing_adopt (port : Nat) (peer : Peer σ) :
    Obeys growing (adopt site.behaviour port peer) := by
  intro s
  unfold adopt
  generalize Link.writeStdin site.behaviour initCommand _ = answer
  obtain ⟨got, l⟩ := answer
  cases got with
  | ok _ => exact List.prefix_rfl
  | error stop => exact List.prefix_append _ _

theorem retired_launch (s : Session σ) : s.retire.retired <+: (launch site s).2.retired := by
  rw [launch]
  cases site.attempt s.attempts s.settings with
  | failed message => exact List.prefix_rfl
  | started port peer arrival =>
    cases arrival with
    | connected =>
      have hadopt : Obeys growing (adopt site.behaviour port peer) := growing_adopt port peer
      exact hadopt { s.retire with attempts := s.attempts + 1 }
    | _ => exact List.prefix_append _ _

theorem quarantine_launch : Obeys quarantine (launch site) :=
  fun s => s.quarantines_retire (retired_launch s)

theorem quarantine_perform (site : Site σ) (recovery : Recovery) :
    Obeys quarantine (perform site recovery) := by
  cases recovery with
  | quit =>
    refine (Op.obeys_modify fun s => quarantines_of_same rfl rfl).bind fun _ =>
      Op.obeys_get.bind fun s => ?_
    cases s.link with
    | none => exact Op.obeys_pure ()
    | some l =>
      cases h : l.isFailed with
      | true => simp only [h, if_true]; exact Op.obeys_pure ()
      | false =>
        simp only [h, Bool.false_eq_true, if_false]
        exact quarantine_onLink fun l hf => by rw [Link.resetToTopLevel_failed hf]
  | resume =>
    intro s
    refine ⟨List.prefix_rfl, fun l hl hf => .inl ⟨?_, rfl⟩⟩
    simp only [Op.modify_apply, perform, hl, Option.map_some, Link.acknowledge_failed hf]
  | restart =>
    refine (Op.obeys_modify fun s => ?_).bind fun _ => quarantine_launch
    exact quarantines_of_same rfl rfl

end Session

namespace Handler

variable {α : Type} {site : Site σ} {x : Exchange σ} {l : Link σ}

theorem onLink_refused {op : LinkOp σ α} (hx : x.session.link = some l)
    (h : op l = (.error (.failed Link.refusal), l)) :
    onLink op x = (.error (.failed (.report Link.refusal)), x) := by
  rw [onLink_some hx, h, ← hx]
  rfl

theorem evaluate_failed (hx : x.session.link = some l) (hf : l.state = .failed) (form : String) :
    evaluate site form x = (.error (.failed (.report Link.refusal)), x) := by
  rw [evaluate]
  exact Op.bind_error (onLink_refused hx (Link.eval_failed hf form))

structure Refuses (site : Site σ) (x : Exchange σ) (report : Report) : Prop where
  evaluated : ∀ form, evaluate site form x = (.error (.failed (.report report)), x)
  executed : ∀ command, onLink (Link.execute site.behaviour command) x =
    (.error (.failed (.report report)), x)
  fatal : report.fatal = true

theorem refuses_failed (hx : x.session.link = some l) (hf : l.state = .failed) :
    Refuses site x Link.refusal where
  evaluated := evaluate_failed hx hf
  executed command := onLink_refused hx (Link.execute_failed hf command)
  fatal := rfl

theorem evaluate_none (hx : x.session.link = none) (form : String) :
    evaluate site form x = (.error (.failed (.report Session.noEvaluator)), x) := by
  rw [evaluate]
  exact Op.bind_error (onLink_none hx)

theorem refuses_none (hx : x.session.link = none) : Refuses site x Session.noEvaluator where
  evaluated := evaluate_none hx
  executed _ := onLink_none hx
  fatal := rfl

theorem Refuses.executeOr {report : Report} (h : Refuses site x report) (command : String)
    (onError : Report → Handler σ α) (onValue : Sexp → Handler σ α) :
    executeOr site command onError onValue x = (.error (.failed (.report report)), x) := by
  rw [Handler.executeOr, h.executed command]
  simp only [h.fatal, if_true]

theorem growing_follow (e : Evaluation) :
    Obeys (Law.onSession Session.growing) (follow site.behaviour e) :=
  obeys_follow fun _ _ _ _ _ _ _ => List.prefix_rfl

theorem growing_onLink (op : LinkOp σ α) : Obeys (Law.onSession Session.growing) (onLink op) :=
  obeys_onLink fun _ _ _ => List.prefix_rfl

theorem quarantine_evaluate (form : String) :
    Obeys (Law.onSession Session.quarantine) (evaluate site form) := by
  intro x
  by_cases h : ∃ l, x.session.link = some l ∧ l.state = .failed
  · obtain ⟨l, hx, hf⟩ := h
    rw [evaluate_failed hx hf]
    exact x.session.quarantines_refl
  · have hgrows : Obeys (Law.onSession Session.growing) (evaluate site form) :=
      (growing_onLink _).bind growing_follow
    exact Session.quarantines_of_usable (hgrows x) fun l hx hf => h ⟨l, hx, hf⟩

theorem quarantine_steps : StepsObey (Law.onSession Session.quarantine) site where
  evaluated := quarantine_evaluate
  executed command := obeys_onSession (Session.quarantine_onLink fun l hf => by
    rw [Link.execute_failed hf])
  acknowledged x := by
    refine ⟨List.prefix_rfl, fun l hx hf => .inl ⟨?_, rfl⟩⟩
    simp only [hx, Option.map_some, Link.acknowledge_failed hf]
  told x _ := x.session.quarantines_refl
  recovered _ recovery := obeys_recover_onSession (fun _ => Session.quarantines_of_same rfl rfl)
    (Session.quarantine_perform site recovery)
  quitted x := Session.quarantines_retire { x.session with debugger := .empty } List.prefix_rfl

end Handler

namespace EditorOperation

/-- An operation that evaluates a form or runs a command over the socket, unless its arguments are
at fault or it needs no answer from the evaluator. -/
def asksEvaluator (operation : EditorOperation) (args : List Sexp) : Bool :=
  let text? := (args[0]?.map Sexp.unquote).bind Sexp.designator?
  match operation with
  | connectionInfo => true
  | interactiveEval | listenerEval | compileString | compileFile | describeSymbol
  | describeFunction | expandOnce | simpleCompletions => text?.isSome
  | fuzzyCompletions => text?.any fun start => Handler.fuzzyMinimum ≤ start.length
  | createRepl | acknowledge | autodoc | operatorArglist | invokeRestart | quitInnermost
  | resumeInnermost | quitLisp => false

variable {site : Site σ} {x : Exchange σ} {args : List Sexp}

/-- Nothing that asks the evaluator gets past a first question that is refused. -/
theorem handle_refused {operation : EditorOperation} {report : Report}
    (hx : Handler.Refuses site x report) (h : operation.asksEvaluator args = true) :
    operation.handle site args x = (.error (.failed (.report report)), x) := by
  cases ht : (args[0]?.map Sexp.unquote).bind Sexp.designator? with
  | none =>
    simp only [asksEvaluator, ht] at h
    cases operation with
    | connectionInfo => exact Op.bind_error (hx.executed _)
    | _ => cases h
  | some text =>
  -- The text is there, so the first thing that the operation does is to ask.
    have hintrospect : ∀ command, Handler.introspect site command x =
        (.error (.failed (.report report)), x) := fun command => hx.executeOr command _ _
    simp only [asksEvaluator, ht] at h
    cases operation with
    | connectionInfo => exact Op.bind_error (hx.executed _)
    | interactiveEval =>
      simp only [handle, Handler.interactiveEval, Handler.textArg_some ht, pure_bind]
      exact Op.bind_error (hx.evaluated text)
    | listenerEval =>
      simp only [handle, Handler.listenerEval, Handler.textArg_some ht, pure_bind]
      exact Op.bind_error (hx.evaluated text)
    | compileString =>
      simp only [handle, Handler.compileString, Handler.textArg_some ht, pure_bind]
      exact Op.bind_error (hx.evaluated text)
    | compileFile =>
      simp only [handle, Handler.compileFile, Handler.textArg_some ht, pure_bind]
      exact Op.bind_error (hx.evaluated _)
    | describeSymbol =>
      simp only [handle, Handler.describeSymbol, Handler.textArg_some ht, pure_bind]
      exact hintrospect _
    | describeFunction =>
      simp only [handle, Handler.describeFunction, Handler.textArg_some ht, pure_bind]
      exact hintrospect _
    | expandOnce =>
      simp only [handle, Handler.expandOnce, Handler.textArg_some ht, pure_bind]
      exact hintrospect _
    | simpleCompletions =>
      simp only [handle, Handler.simpleCompletions, Handler.textArg_some ht, pure_bind]
      exact Op.bind_error (hx.executeOr _ _ _)
    | fuzzyCompletions =>
      have hlong : ¬ text.length < Handler.fuzzyMinimum := by simpa using h
      simp only [handle, Handler.fuzzyCompletions, Handler.textArg_some ht, pure_bind,
        if_neg hlong]
      exact Op.bind_error (hx.executeOr _ _ _)
    | _ => cases h

end EditorOperation

namespace Handler

def NeverReports {α : Type} (op : Handler σ α) : Prop :=
  ∀ x report, (op x).1 ≠ .error (.failed (.report report))

section

variable {α β : Type} {site : Site σ}

theorem neverReports_pure (a : α) : NeverReports (pure a : Handler σ α) := by
  intro x report h
  cases h

theorem neverReports_get : NeverReports (Op.get : Handler σ (Exchange σ)) := by
  intro x report h
  cases h

theorem neverReports_modify (f : Exchange σ → Exchange σ) :
    NeverReports (Op.modify f : Handler σ Unit) := by
  intro x report h
  cases h

theorem neverReports_invalid (operation message : String) :
    NeverReports (Op.fail (.invalidArguments operation message) : Handler σ α) := by
  intro x report h
  cases h

theorem neverReports_ofOption (operation message : String) (a? : Option α) :
    NeverReports (Op.ofOption (.invalidArguments operation message) a? : Handler σ α) := by
  cases a? with
  | none => exact neverReports_invalid operation message
  | some a => exact neverReports_pure a

theorem NeverReports.bind {op : Handler σ α} {next : α → Handler σ β} (h : NeverReports op)
    (hn : ∀ a, NeverReports (next a)) : NeverReports (op >>= next) := by
  intro x report hrun
  rw [Op.bind_apply] at hrun
  have hx := h x report
  generalize op x = answer at hrun hx
  obtain ⟨got, y⟩ := answer
  cases got with
  | ok a => exact hn a y report hrun
  | error stop =>
    apply hx
    cases hrun
    rfl

theorem neverReports_integerArg (operation : String) (args : List Sexp) (index : Nat) :
    NeverReports (integerArg operation args index : Handler σ Int64) :=
  neverReports_ofOption _ _ _

theorem neverReports_levelArg (operation : String) (args : List Sexp) (index : Nat) :
    NeverReports (levelArg operation args index : Handler σ Nat) := by
  refine (neverReports_integerArg operation args index).bind fun level => ?_
  split
  · exact neverReports_pure _
  · exact neverReports_invalid _ _

theorem neverReports_recover (level : Nat) (recovery : Recovery) :
    NeverReports (recover site level recovery) := by
  refine NeverReports.bind (fun x report h => ?_) fun closed =>
    (neverReports_modify _).bind fun _ => (neverReports_modify _).bind fun _ => neverReports_pure _
  simp only [Session.recover] at h
  split at h
  · cases h
  · split at h <;> cases h

theorem neverReports_recoverInnermost (recovery : Recovery) :
    NeverReports (recoverInnermost site recovery) := by
  refine neverReports_get.bind fun x => ?_
  cases x.session.debugger.innermost? with
  | none => exact neverReports_pure _
  | some innermost => exact neverReports_recover _ _

theorem neverReports_invokeRestart (args : List Sexp) :
    NeverReports (invokeRestart site args) :=
  (neverReports_levelArg _ _ _).bind fun _ => (neverReports_integerArg _ _ _).bind fun _ =>
    (neverReports_ofOption _ _ _).bind fun _ => neverReports_recover _ _

theorem neverReports_textArg {operation : String} {args : List Sexp} {index : Nat}
    {next : String → Handler σ α}
    (h : (args[index]?.map Sexp.unquote).bind Sexp.designator? = none) :
    NeverReports (textArg operation args index >>= next) := by
  obtain ⟨message, hfail⟩ : ∃ message, (textArg operation args index : Handler σ String) =
      Op.fail (.invalidArguments operation message) := textArg_none h
  rw [hfail]
  intro x report hrun
  cases hrun

end

end Handler

namespace EditorOperation

open Handler

variable {site : Site σ} {args : List Sexp}

/-- What does not ask the evaluator opens no debugger level. -/
theorem neverReports_handle {operation : EditorOperation}
    (h : operation.asksEvaluator args = false) : NeverReports (operation.handle site args) := by
  cases ht : (args[0]?.map Sexp.unquote).bind Sexp.designator? with
  | none =>
    simp only [asksEvaluator, ht] at h
    cases operation with
    | connectionInfo => cases h
    | createRepl => exact neverReports_get.bind fun _ => neverReports_pure _
    | invokeRestart => exact neverReports_invokeRestart args
    | quitInnermost => exact neverReports_recoverInnermost _
    | resumeInnermost => exact neverReports_recoverInnermost _
    | quitLisp => exact (neverReports_modify _).bind fun _ => neverReports_pure _
    | acknowledge | autodoc | operatorArglist => exact neverReports_pure _
    | _ => exact neverReports_textArg ht
  | some text =>
    simp only [asksEvaluator, ht] at h
    cases operation with
    | createRepl => exact neverReports_get.bind fun _ => neverReports_pure _
    | invokeRestart => exact neverReports_invokeRestart args
    | quitInnermost => exact neverReports_recoverInnermost _
    | resumeInnermost => exact neverReports_recoverInnermost _
    | quitLisp => exact (neverReports_modify _).bind fun _ => neverReports_pure _
    | acknowledge | autodoc | operatorArglist => exact neverReports_pure _
    | fuzzyCompletions =>
      have hshort : text.length < fuzzyMinimum := by simpa using h
      simp only [handle, Handler.fuzzyCompletions, textArg_some ht, pure_bind, if_pos hshort]
      exact neverReports_pure _
    | _ => cases h

end EditorOperation

def Request.asksEvaluator (r : Request) : Bool :=
  (EditorOperation.table.get? r.operation).any fun operation => operation.asksEvaluator r.args

section

variable {site : Site σ} {x : Exchange σ} {l : Link σ}

theorem handleRequest_refused {r : Request} {report : Report}
    (hx : Handler.Refuses site x report) (h : r.asksEvaluator = true) :
    handleRequest site r x = (.ok (), x.enterDebugger r.callId report) := by
  unfold Request.asksEvaluator at h
  cases ho : EditorOperation.table.get? r.operation with
  | none => simp [ho] at h
  | some operation =>
    simp only [ho, Option.any_some] at h
    exact handleRequest_of_report ho (EditorOperation.handle_refused hx h)

theorem neverReports_workOn {r : Request} (h : r.asksEvaluator = false) :
    Handler.NeverReports (workOn site r) := by
  unfold Request.asksEvaluator at h
  cases ho : EditorOperation.table.get? r.operation with
  | none =>
    intro y report hwork
    simp only [workOn, ho] at hwork
    cases hwork
  | some operation =>
    simp only [ho, Option.any_some] at h
    intro y report hwork
    simp only [workOn, ho] at hwork
    exact EditorOperation.neverReports_handle h y report hwork

theorem quarantine_handlePayloads (site : Site σ) (payloads : List (List UInt8)) :
    Obeys (Law.onSession Session.quarantine) (handlePayloads site payloads) :=
  obeys_handlePayloads fun r _ => Handler.quarantine_steps.handleRequest
    (fun x _ => x.session.quarantines_refl) (fun _ _ _ => Session.quarantines_of_same rfl rfl) r

end

def failedExchange : Exchange Unit :=
  ⟨{ Session.start Config.Layer.empty.resolve with
      link := some { Link.fresh 4005 with state := .failed } }, []⟩

end SlimeServer
