import SlimeServer.Proofs.Editor.Operations
import SlimeServer.Proofs.Editor.Run
import SlimeServer.Proofs.Editor.Table
import SlimeServer.Proofs.Evaluator.Evaluation
import SlimeServer.Proofs.Evaluator.Failed
/-!
# The link and the debugger in step

Between two requests no evaluation is going on, and an error that the evaluator has raised has its
level open. A failure breaks this off, and the level that is opened for it restores it.
-/
namespace SlimeServer

variable {σ : Type}

namespace Session

/-- No evaluation is going on. An error that is still raised has a level, and it is the innermost
one. -/
def InStep (s : Session σ) : Prop :=
  ∀ l, s.link = some l → l.state ≠ .evaluating ∧
    (l.state = .errorRaised →
      ∃ level, s.debugger.innermost? = some level ∧ level.fatal = false)

def Halted (s : Session σ) (report : Report) : Prop :=
  ∀ l, s.link = some l → l.state = Link.stateAfter report

def Calm (s : Session σ) : Prop := ∀ l, s.link = some l → l.state = .idle ∨ l.state = .failed

theorem Calm.inStep {s : Session σ} (h : s.Calm) : s.InStep := by
  intro l hl
  rcases h l hl with hstate | hstate
  · simp [hstate]
  · simp [hstate]

theorem calm_of_link_none {s : Session σ} (h : s.link = none) : s.Calm := by
  intro l hl
  rw [h] at hl
  cases hl

theorem calm_of_link_some {s : Session σ} {l : Link σ} (h : s.link = some l)
    (hstate : l.state = .idle ∨ l.state = .failed) : s.Calm := by
  intro l' hl'
  rw [h] at hl'
  cases hl'
  exact hstate

theorem halted_of_link_none {s : Session σ} (h : s.link = none) (report : Report) :
    s.Halted report := by
  intro l hl
  rw [h] at hl
  cases hl

theorem halted_of_link_some {s : Session σ} {l : Link σ} {report : Report}
    (h : s.link = some l) (hstate : l.state = Link.stateAfter report) : s.Halted report := by
  intro l' hl'
  rw [h] at hl'
  cases hl'
  exact hstate

theorem calm_acknowledge (s : Session σ) :
    Calm { s with link := s.link.map Link.acknowledge } := by
  intro l' hl'
  obtain ⟨l, -, rfl⟩ := Option.map_eq_some_iff.1 hl'
  rw [Link.acknowledge]
  split
  · rename_i hfailed
    exact .inr hfailed
  · exact .inl rfl

theorem Halted.inStep_push {s : Session σ} {report : Report} (h : s.Halted report)
    (callId : Int64) : InStep { s with debugger := s.debugger.push callId report } := by
  intro l hl
  have hstate := h l hl
  rw [Link.stateAfter] at hstate
  cases hfatal : report.fatal with
  | true => simp [hstate, hfatal]
  | false =>
    refine ⟨by simp [hstate, hfatal], fun _ => ⟨s.debugger.nextLevel callId report, ?_, hfatal⟩⟩
    simp [Debugger.innermost?, Debugger.push]

section

variable {site : Site σ} {s t : Session σ} {got : Except (Stop Report) Unit}

theorem calm_adopt {b : Behaviour σ} {port : Nat} {peer : Peer σ} (hs : s.link = none)
    (h : adopt b port peer s = (got, t)) : t.Calm := by
  have hstate := Link.obeys_writeStdin b Link.awaits_sameState.moves initCommand
    (.connected peer port s.settings.tuning)
  rw [adopt] at h
  generalize Link.writeStdin b initCommand (.connected peer port s.settings.tuning) = answer
    at h hstate
  obtain ⟨first, l⟩ := answer
  cases first with
  | ok _ =>
    cases h
    exact calm_of_link_some rfl (.inl hstate)
  | error stop =>
    cases h
    exact calm_of_link_none hs

/-- A link that was started is idle. -/
theorem calm_launch (h : launch site s = (got, t)) : t.Calm := by
  rw [launch] at h
  cases ha : site.attempt s.attempts s.settings with
  | failed message =>
    rw [ha] at h
    cases h
    exact calm_of_link_none rfl
  | started port peer arrival =>
    rw [ha] at h
    cases arrival with
    | connected => exact calm_adopt rfl h
    | _ =>
      cases h
      exact calm_of_link_none rfl

/-- Leaving the nested levels brings the link back to being idle, or it fails. -/
theorem calm_resetToTopLevel {b : Behaviour σ} {l : Link σ} (hs : s.link = some l)
    (h : onLink (Link.resetToTopLevel b) s = (got, t)) (hdone : got ≠ .error .stalled) :
    t.Calm := by
  simp only [onLink, hs] at h
  cases hreset : Link.resetToTopLevel b l with
  | mk first l' =>
    rw [hreset] at h
    cases h
    refine calm_of_link_some rfl ?_
    cases first with
    | ok _ => exact .inl (Link.resetToTopLevel_idle hreset)
    | error stop =>
      cases stop with
      | failed report =>
        have hfatal : report.fatal = true :=
          Link.losing_resetToTopLevel l _ l' hreset trivial
        have hfailed := Link.recorded_resetToTopLevel l l' report hreset
        exact .inr (hfailed.2 hfatal)
      | stalled => exact absurd rfl hdone

/-- Once a recovery has been carried out, no error is raised. -/
theorem calm_perform {recovery : Recovery} (h : perform site recovery s = (got, t))
    (hdone : got ≠ .error .stalled) : t.Calm := by
  cases recovery with
  | quit =>
    rw [perform, Op.bind_ok (Op.modify_apply _ _), Op.bind_ok (Op.get_apply _)] at h
    cases hl : s.link with
    | none =>
      simp only [hl] at h
      cases h
      exact calm_of_link_none rfl
    | some l =>
      simp only [hl] at h
      split at h
      · rename_i hfailed
        cases h
        exact calm_of_link_some rfl (.inr (by simpa [Link.isFailed] using hfailed))
      · exact calm_resetToTopLevel rfl h hdone
  | resume =>
    cases h
    exact calm_acknowledge s
  | restart =>
    rw [perform, restart, Op.bind_ok (Op.modify_apply _ _)] at h
    exact calm_launch h

end

end Session

namespace Handler

open Op (Upholds)
open Session (calm_of_link_none calm_of_link_some halted_of_link_none halted_of_link_some)

variable {site : Site σ}

/-- The link and the debugger stay in step; a failure of the evaluator leaves a level to open. -/
def inStep : Contract (Exchange σ) RequestError where
  kept x := x.session.InStep
  failed error x := match error with
    | .report report => x.session.Halted report
    | _ => x.session.InStep
  waiting _ := True

theorem inStep_refused (x : Exchange σ) (error : RequestError) (h : error.IsRefusal) :
    inStep.failed error x ↔ x.session.InStep := by
  cases error with
  | report report => exact absurd rfl (h report)
  | _ => exact Iff.rfl

/-- An evaluation that has come to its end leaves the link idle. -/
theorem inStep_follow {e : Evaluation} (he : e.finished = false) {x y : Exchange σ}
    {got : Except (Stop RequestError) (Option String)}
    (h : follow site.behaviour e x = (got, y)) : inStep.holds got y := by
  cases hx : x.session.link with
  | none =>
    rw [follow_none hx] at h
    cases h
    exact halted_of_link_none hx _
  | some l =>
    cases hr : e.rest site.behaviour l with
    | mk items result =>
      obtain ⟨answer, l'⟩ := result
      rw [follow_eq hx hr] at h
      cases h
      cases answer with
      | ok _ =>
        have hsettled : e.Settled l := by
          intro hfinished
          rw [he] at hfinished
          cases hfinished
        exact (calm_of_link_some rfl (.inl (Evaluation.idle_of_rest hsettled hr))).inStep
      | error stop =>
        cases stop with
        | failed report => exact halted_of_link_some rfl (Evaluation.state_of_rest_failed hr)
        | stalled => trivial

theorem inStep_evaluate (form : String) : Upholds inStep (evaluate site form) := by
  intro x got y h _
  rw [evaluate, Op.bind_apply] at h
  cases hx : x.session.link with
  | none =>
    rw [onLink_none hx] at h
    cases h
    exact halted_of_link_none hx _
  | some l =>
    rw [onLink_some hx] at h
    cases heval : Link.eval site.behaviour form l with
    | mk first l' =>
      rw [heval] at h
      cases first with
      | ok e => exact inStep_follow (Link.returns_eval form l e l' heval) h
      | error stop =>
        cases stop with
        | failed report =>
          cases h
          have hmarked := Link.marking_eval (K := fun _ => True) trivial form l _ l' heval trivial
          exact halted_of_link_some rfl hmarked
        | stalled =>
          cases h
          trivial

/-- A command leaves the state of the link as it is, unless it fails. -/
theorem inStep_execute (command : String) :
    Upholds inStep (onLink (Link.execute site.behaviour command)) := by
  intro x got y h hkept
  cases hx : x.session.link with
  | none =>
    rw [onLink_none hx] at h
    cases h
    exact halted_of_link_none hx _
  | some l =>
    rw [onLink_some hx] at h
    cases hexecute : Link.execute site.behaviour command l with
    | mk first l' =>
      have hmarked := Link.marking_execute command (K := (· = l.state)) l first l' hexecute rfl
      rw [hexecute] at h
      cases h
      cases first with
      | ok value =>
        intro l₁ hl₁
        cases hl₁
        have hstate : l'.state = l.state := hmarked
        rw [hstate]
        exact hkept l hx
      | error stop =>
        cases stop with
        | failed report => exact halted_of_link_some rfl hmarked
        | stalled => trivial

theorem inStep_recover (level : Nat) (recovery : Recovery) :
    Upholds inStep (recover site level recovery) := by
  intro x got y h hkept
  cases hx : x.session.debugger.get? level with
  | none =>
    obtain ⟨message, hrefused⟩ : ∃ message, recover site level recovery x = (.error (.failed
        (.invalidArguments "swank:invoke-nth-restart-for-emacs" message)), x) := recover_none hx
    rw [hrefused] at h
    cases h
    exact hkept
  | some closed =>
    cases hp : Session.perform site recovery
        { x.session with debugger := x.session.debugger.closeFrom level } with
    | mk done s =>
      obtain ⟨hstalled, hclosed⟩ := recover_some hx hp
      by_cases hdone : done = .error .stalled
      · rw [hstalled hdone] at h
        cases h
        trivial
      · rw [hclosed hdone] at h
        cases h
        exact (Session.calm_perform hp hdone).inStep

theorem inStep_steps : StepsUphold inStep site where
  evaluated := inStep_evaluate
  executed := inStep_execute
  acknowledged x _ _ _ := (Session.calm_acknowledge x.session).inStep
  told _ _ hkept := hkept
  refused x error hrefusal hkept := (inStep_refused x error hrefusal).2 hkept
  recovered := inStep_recover
  quitted _ _ := (calm_of_link_none rfl).inStep

end Handler

section

variable {site : Site σ}

theorem inStep_handlePayloads (payloads : List (List UInt8)) :
    Op.Upholds (Handler.served Handler.inStep) (handlePayloads site payloads) :=
  upholds_handlePayloads fun r _ => Handler.inStep_steps.handleRequest (fun _ _ hkept => hkept)
    (fun x error _ hfailed hrefusal => (Handler.inStep_refused x error hrefusal).1 hfailed)
    (fun _ callId _ hhalted => hhalted.inStep_push callId) r

/-- From a fresh session, or one whose evaluator was launched, after every payload of a run that
comes to its end: the link is not evaluating, and if an error is raised in it, the innermost level
of the debugger is open for an error that is not fatal. -/
theorem link_and_debugger_in_step (site : Site σ) (s : Session σ)
    (hs : (∃ settings, s = .start settings) ∨ ∃ s₀, Session.launch site s₀ = (.ok (), s))
    (sent : List Sexp) (payloads : List (List UInt8)) (z : Exchange σ)
    (hrun : handlePayloads site payloads ⟨s, sent⟩ = (.ok (), z)) :
    ∀ before after, payloads = before ++ after →
      ∃ y, handlePayloads site before ⟨s, sent⟩ = (.ok (), y) ∧ y.session.InStep := by
  rintro before after rfl
  obtain ⟨y, hbefore, -⟩ := handlePayloads_prefix hrun
  have hstart : s.InStep := by
    rcases hs with ⟨settings, rfl⟩ | ⟨s₀, hlaunch⟩
    · exact (Session.calm_of_link_none rfl).inStep
    · exact (Session.calm_launch hlaunch).inStep
  exact ⟨y, hbefore, inStep_handlePayloads before _ _ y hbefore hstart⟩

end

def faulting : Behaviour Unit := .answering []
  [.output (Utf8.encode (sessionToken 4005)),
    .received (Frame.framed (Utf8.encode "error") ++ Frame.framed (Utf8.encode "boom"))]

def faultingSite : Site Unit :=
  ⟨fun _ _ => .started 4005 (.start () []) .connected, faulting, 0, "X86_64"⟩

def faultingSession : Session Unit :=
  (Session.launch faultingSite (.start Config.Layer.empty.resolve)).2

def faultingPayload : List UInt8 := Utf8.encode "(:emacs-rex (swank:connection-info) nil t 1)"

/-- The evaluator raises an error, and its level is open. -/
theorem link_in_step_faulting :
    (∃ s₀, Session.launch faultingSite s₀ = (.ok (), faultingSession)) ∧
    (Handler.connectionInfo faultingSite ⟨faultingSession, []⟩).2.session.linkState? =
      some .errorRaised ∧
    ∃ y, handlePayloads faultingSite [faultingPayload] ⟨faultingSession, []⟩ = (.ok (), y) ∧
      y.session.InStep := by
  have hrequest : requestIn? faultingPayload =
      some ⟨"swank:connection-info", [], none, .truth, 1⟩ := by decide +kernel
  have hwaits : Op.waits (Handler.connectionInfo faultingSite ⟨faultingSession, []⟩).1 = false := by
    decide +kernel
  have hlaunch : ∃ s₀, Session.launch faultingSite s₀ = (.ok (), faultingSession) :=
    ⟨.start Config.Layer.empty.resolve, rfl⟩
  obtain ⟨z, hreturns⟩ : ∃ z, handleRequest faultingSite
      ⟨"swank:connection-info", [], none, .truth, 1⟩ ⟨faultingSession, []⟩ = (.ok (), z) :=
    handleRequest_returns EditorOperation.get?_connectionInfo hwaits
  have hrun : handlePayloads faultingSite [faultingPayload] ⟨faultingSession, []⟩ =
      (.ok (), z) := by
    rw [handlePayloads, Op.bind_ok ((handlePayload_of_request hrequest).trans hreturns)]
    rfl
  have hinStep := link_and_debugger_in_step faultingSite faultingSession (.inr hlaunch) []
    [faultingPayload] z hrun
  exact ⟨hlaunch, by decide +kernel, hinStep _ [] (List.append_nil _).symm⟩

end SlimeServer
