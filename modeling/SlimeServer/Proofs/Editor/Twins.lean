import SlimeServer.Proofs.Editor.Operations
import SlimeServer.Proofs.Editor.Run
/-!
# Two sessions beside each other

Two sessions that agree on what requests look at, each on a site of its own, handle the same
payloads alike: the same messages are sent, and the sessions go on agreeing. What was sent before
makes no difference.
-/
namespace SlimeServer

open Op (Matches)

variable {σ : Type}

structure Session.Alike (s t : Session σ) : Prop where
  settings : s.settings = t.settings
  link : s.link = t.link
  debugger : s.debugger = t.debugger

/-- Related sessions agree on what requests look at, and the two sites serve them alike: what
requests do to a session leaves related ones. -/
structure Site.Twins (A : Session σ → Session σ → Prop) (site site' : Site σ) : Prop where
  behaviour : site.behaviour = site'.behaviour
  processId : site.processId = site'.processId
  machine : site.machine = site'.machine
  alike : ∀ s t, A s t → s.Alike t
  linked : ∀ s t link, A s t → A { s with link := link } { t with link := link }
  leveled : ∀ s t d, A s t → A { s with debugger := d } { t with debugger := d }
  launched : Matches A (Session.launch site) (Session.launch site')
  quitted : ∀ s t, A s t → A s.shutdown.requestStop t.shutdown.requestStop

def Exchange.Beside (A : Session σ → Session σ → Prop) (before before' : List Sexp)
    (x y : Exchange σ) : Prop :=
  A x.session y.session ∧ ∃ messages, x.sent = before ++ messages ∧ y.sent = before' ++ messages

namespace Exchange

variable {A : Session σ → Session σ → Prop} {before before' : List Sexp} {x y : Exchange σ}

theorem beside_start {s t : Session σ} (h : A s t) (before before' : List Sexp) :
    Beside A before before' ⟨s, before⟩ ⟨t, before'⟩ :=
  ⟨h, [], (List.append_nil _).symm, (List.append_nil _).symm⟩

theorem Beside.send (h : Beside A before before' x y) (messages : List Sexp) :
    Beside A before before' { x with sent := x.sent ++ messages }
      { y with sent := y.sent ++ messages } := by
  obtain ⟨hsession, sent, hx, hy⟩ := h
  exact ⟨hsession, sent ++ messages, by rw [hx, List.append_assoc], by rw [hy, List.append_assoc]⟩

theorem Beside.tell (h : Beside A before before' x y) (message : Sexp) :
    Beside A before before' (x.tell message) (y.tell message) :=
  h.send [message]

theorem Beside.session (h : Beside A before before' x y) {s t : Session σ} (hst : A s t) :
    Beside A before before' { x with session := s } { y with session := t } :=
  ⟨hst, h.2⟩

theorem Beside.enterDebugger {site site' : Site σ} (htwins : Site.Twins A site site')
    (h : Beside A before before' x y) (callId : Int64) (report : Report) :
    Beside A before before' (x.enterDebugger callId report) (y.enterDebugger callId report) := by
  have hdebugger := (htwins.alike _ _ h.1).debugger
  unfold Exchange.enterDebugger
  rw [hdebugger]
  exact ((h.session (htwins.leveled _ _ _ h.1)).tell _).tell _

end Exchange

open Exchange (Beside)

namespace Site.Twins

variable {A : Session σ → Session σ → Prop} {site site' : Site σ} (h : Site.Twins A site site')
  {before before' : List Sexp}
include h

section

variable {α : Type}

theorem session_onLink (op : LinkOp σ α) : Matches A (Session.onLink op) (Session.onLink op) := by
  intro s t hst
  have hlink := (h.alike s t hst).link
  unfold Session.onLink
  rw [← hlink]
  cases s.link with
  | none => exact ⟨rfl, hst⟩
  | some l => exact ⟨rfl, h.linked s t _ hst⟩

theorem perform (recovery : Recovery) :
    Matches A (Session.perform site recovery) (Session.perform site' recovery) := by
  have hempties : Matches A (Op.modify fun s => { s with debugger := .empty } : SessionOp σ Unit)
      (Op.modify fun s => { s with debugger := .empty }) :=
    Op.matches_modify fun s t => h.leveled s t .empty
  cases recovery with
  | quit =>
    refine hempties.bind fun _ => Op.matches_get_bind fun s t hst => ?_
    rw [← (h.alike s t hst).link]
    cases s.link with
    | none => exact ⟨rfl, hst⟩
    | some l =>
      by_cases hfailed : l.isFailed = true
      · simp only [if_pos hfailed]
        exact ⟨rfl, hst⟩
      · simp only [if_neg hfailed, ← h.behaviour]
        exact h.session_onLink _ s t hst
  | resume =>
    refine Op.matches_modify fun s t hst => ?_
    rw [← (h.alike s t hst).link]
    exact h.linked s t _ hst
  | restart => exact hempties.bind fun _ => h.launched

theorem recover_session (level : Nat) (recovery : Recovery) :
    Matches A (Session.recover site level recovery) (Session.recover site' level recovery) := by
  intro s t hst
  have hdebugger := (h.alike s t hst).debugger
  simp only [Session.recover, Debugger.take_eq]
  rw [← hdebugger]
  cases s.debugger.get? level with
  | none => exact ⟨rfl, hst⟩
  | some closed =>
    dsimp only
    obtain ⟨hout, hleft⟩ := h.perform recovery _ _
      (h.leveled s t (s.debugger.closeFrom level) hst)
    generalize Session.perform site recovery _ = answer at hout hleft ⊢
    generalize Session.perform site' recovery _ = answer' at hout hleft ⊢
    obtain ⟨got, s'⟩ := answer
    obtain ⟨got', t'⟩ := answer'
    cases hout
    cases got with
    | ok _ => exact ⟨rfl, hleft⟩
    | error stop => cases stop <;> exact ⟨rfl, hleft⟩

theorem onLink (op : LinkOp σ α) :
    Matches (Beside A before before') (Handler.onLink op) (Handler.onLink op) := by
  intro x y hxy
  have hlink := (h.alike _ _ hxy.1).link
  cases hx : x.session.link with
  | none =>
    rw [Handler.onLink_none hx, Handler.onLink_none (hlink ▸ hx)]
    exact ⟨rfl, hxy⟩
  | some l =>
    rw [Handler.onLink_some hx, Handler.onLink_some (hlink ▸ hx)]
    exact ⟨rfl, hxy.session (h.linked _ _ _ hxy.1)⟩

theorem follow (e : Evaluation) : Matches (Beside A before before')
    (Handler.follow site.behaviour e) (Handler.follow site'.behaviour e) := by
  intro x y hxy
  have hlink := (h.alike _ _ hxy.1).link
  rw [← h.behaviour]
  cases hx : x.session.link with
  | none =>
    rw [Handler.follow_none hx, Handler.follow_none (hlink ▸ hx)]
    exact ⟨rfl, hxy⟩
  | some l =>
    cases hrest : e.rest site.behaviour l with
    | mk items result =>
      obtain ⟨answer, l'⟩ := result
      rw [Handler.follow_eq hx hrest, Handler.follow_eq (hlink ▸ hx) hrest]
      exact ⟨rfl, (hxy.session (h.linked _ _ _ hxy.1)).send _⟩

theorem evaluate (form : String) : Matches (Beside A before before')
    (Handler.evaluate site form) (Handler.evaluate site' form) := by
  refine Matches.bind ?_ h.follow
  rw [← h.behaviour]
  exact h.onLink _

theorem executeOr {command : String} {onError onError' : Report → Handler σ α}
    {onValue onValue' : Sexp → Handler σ α}
    (he : ∀ report, Matches (Beside A before before') (onError report) (onError' report))
    (hv : ∀ value, Matches (Beside A before before') (onValue value) (onValue' value)) :
    Matches (Beside A before before') (Handler.executeOr site command onError onValue)
      (Handler.executeOr site' command onError' onValue') := by
  intro x y hxy
  obtain ⟨hout, hleft⟩ := h.onLink (Link.execute site.behaviour command) x y hxy
  unfold Handler.executeOr
  rw [← h.behaviour]
  generalize Handler.onLink _ x = answer at hout hleft ⊢
  generalize Handler.onLink _ y = answer' at hout hleft ⊢
  obtain ⟨got, x'⟩ := answer
  obtain ⟨got', y'⟩ := answer'
  cases hout
  cases got with
  | ok value => exact hv value x' y' hleft
  | error stop =>
    cases stop with
    | stalled => exact ⟨rfl, hleft⟩
    | failed error =>
      cases error with
      | report report =>
        simp only
        split
        · exact ⟨rfl, hleft⟩
        · refine he report _ _ (hleft.session ?_)
          rw [← (h.alike _ _ hleft.1).link]
          exact h.linked _ _ _ hleft.1
      | _ => exact ⟨rfl, hleft⟩

theorem recover (level : Nat) (recovery : Recovery) : Matches (Beside A before before')
    (Handler.recover site level recovery) (Handler.recover site' level recovery) := by
  refine Matches.bind (fun x y hxy => ?_) fun closed => ?_
  · obtain ⟨hout, hleft⟩ := h.recover_session level recovery _ _ hxy.1
    exact ⟨hout, hxy.session hleft⟩
  · exact (Op.matches_modify fun _ _ hxy => hxy.send _).bind fun _ =>
      (Op.matches_modify fun _ _ hxy => hxy.send _).bind fun _ => Op.matches_pure _

end

theorem introspect (command : String) : Matches (Beside A before before')
    (Handler.introspect site command) (Handler.introspect site' command) :=
  h.executeOr (fun _ => Op.matches_pure _) fun _ => Op.matches_pure _

theorem completions (start : String) : Matches (Beside A before before')
    (Handler.completions site start) (Handler.completions site' start) :=
  h.executeOr (fun _ => Op.matches_pure _) fun _ => Op.matches_pure _

theorem connectionInfo : Matches (Beside A before before')
    (Handler.connectionInfo site) (Handler.connectionInfo site') := by
  unfold Handler.connectionInfo
  rw [← h.behaviour, ← h.processId, ← h.machine]
  refine (h.onLink _).bind fun version => Op.matches_get_bind fun x y hxy => ?_
  rw [(h.alike _ _ hxy.1).settings]
  exact ⟨rfl, hxy⟩

theorem createRepl : Matches (Beside A before before')
    (Handler.createRepl : Handler σ Reply) Handler.createRepl := by
  refine Op.matches_get_bind fun x y hxy => ?_
  rw [(h.alike _ _ hxy.1).settings]
  exact ⟨rfl, hxy⟩

theorem listenerEval (args : List Sexp) : Matches (Beside A before before')
    (Handler.listenerEval site args) (Handler.listenerEval site' args) := by
  refine (Op.matches_ofOption _ _).bind fun form => (h.evaluate form).bind fun printed? => ?_
  cases printed? with
  | none => exact Op.matches_pure _
  | some printed =>
    exact (Op.matches_modify fun _ _ hxy => hxy.send _).bind fun _ => Op.matches_pure _

theorem fuzzyCompletions (args : List Sexp) : Matches (Beside A before before')
    (Handler.fuzzyCompletions site args) (Handler.fuzzyCompletions site' args) := by
  refine (Op.matches_ofOption _ _).bind fun start => ?_
  split
  · exact Op.matches_pure _
  · exact (h.completions start).bind fun _ => Op.matches_pure _

theorem recoverInnermost (recovery : Recovery) : Matches (Beside A before before')
    (Handler.recoverInnermost site recovery) (Handler.recoverInnermost site' recovery) := by
  refine Op.matches_get_bind fun x y hxy => ?_
  rw [(h.alike _ _ hxy.1).debugger]
  cases y.session.debugger.innermost? with
  | none => exact ⟨rfl, hxy⟩
  | some innermost => exact h.recover _ _ x y hxy

theorem invokeRestart (args : List Sexp) : Matches (Beside A before before')
    (Handler.invokeRestart site args) (Handler.invokeRestart site' args) := by
  refine Matches.bind ?_ fun level => (Op.matches_ofOption _ _).bind fun index =>
    (Op.matches_ofOption _ _).bind fun recovery => h.recover level recovery
  refine (Op.matches_ofOption _ _).bind fun level => ?_
  split
  · exact Op.matches_pure _
  · exact Op.matches_fail _

theorem handle (operation : EditorOperation) (args : List Sexp) :
    Matches (Beside A before before') (operation.handle site args)
      (operation.handle site' args) := by
  have htext {operation : String} {index : Nat} : Matches (Beside A before before')
      (Handler.textArg operation args index : Handler σ String)
      (Handler.textArg operation args index) := Op.matches_ofOption _ _
  cases operation with
  | connectionInfo => exact h.connectionInfo
  | createRepl => exact h.createRepl
  | acknowledge | autodoc | operatorArglist => exact Op.matches_pure _
  | interactiveEval | compileString | compileFile =>
    exact htext.bind fun text => (h.evaluate _).bind fun _ => Op.matches_pure _
  | listenerEval => exact h.listenerEval args
  | describeSymbol | describeFunction | expandOnce => exact htext.bind fun text => h.introspect _
  | simpleCompletions =>
    exact htext.bind fun start => (h.completions start).bind fun _ => Op.matches_pure _
  | fuzzyCompletions => exact h.fuzzyCompletions args
  | invokeRestart => exact h.invokeRestart args
  | quitInnermost | resumeInnermost => exact h.recoverInnermost _
  | quitLisp =>
    exact (Op.matches_modify fun x y hxy => hxy.session (h.quitted _ _ hxy.1)).bind fun _ =>
      Op.matches_pure _

theorem workOn (r : Request) :
    Matches (Beside A before before') (workOn site r) (workOn site' r) := by
  unfold SlimeServer.workOn
  cases EditorOperation.table.get? r.operation with
  | none => exact Op.matches_fail _
  | some operation => exact h.handle operation r.args

theorem handleRequest (r : Request) :
    Matches (Beside A before before') (handleRequest site r) (handleRequest site' r) := by
  intro x y hxy
  obtain ⟨hout, hleft⟩ := h.workOn r x y hxy
  unfold SlimeServer.handleRequest
  generalize SlimeServer.workOn site r x = answer at hout hleft ⊢
  generalize SlimeServer.workOn site' r y = answer' at hout hleft ⊢
  obtain ⟨got, x'⟩ := answer
  obtain ⟨got', y'⟩ := answer'
  cases hout
  cases got with
  | ok reply => exact ⟨rfl, hleft.tell _⟩
  | error stop =>
    cases stop with
    | stalled => exact ⟨rfl, hleft⟩
    | failed error =>
      cases error with
      | report report => exact ⟨rfl, hleft.enterDebugger h r.callId report⟩
      | _ => exact ⟨rfl, hleft.tell _⟩

theorem handlePayload (payload : List UInt8) : Matches (Beside A before before')
    (handlePayload site payload) (handlePayload site' payload) := by
  unfold SlimeServer.handlePayload
  cases requestIn? payload with
  | none => exact Op.matches_pure ()
  | some r => exact h.handleRequest r

theorem handlePayloads (payloads : List (List UInt8)) : Matches (Beside A before before')
    (handlePayloads site payloads) (handlePayloads site' payloads) := by
  induction payloads with
  | nil => exact Op.matches_pure ()
  | cons payload rest ih => exact (h.handlePayload payload).bind fun _ => ih

end Site.Twins

end SlimeServer
