import SlimeServer.Editor.Server
import SlimeServer.Proofs.Editor.Message
import SlimeServer.Proofs.Operation
/-!
# Laws and contracts of the editor's operations

Everything that an operation of the editor does is put together from a few steps. A contract that
these uphold is upheld by every operation, and so a law that they obey is obeyed.
-/
namespace SlimeServer

variable {σ : Type}

def Law.onSession (R : Law (Session σ)) : Law (Exchange σ) where
  holds x w y := R.holds x.session w y.session
  refl x := R.refl x.session
  trans h h' := R.trans h h'

def RequestError.IsRefusal (error : RequestError) : Prop := ∀ report, error ≠ .report report

theorem RequestError.isRefusal_invalidArguments (operation message : String) :
    (RequestError.invalidArguments operation message).IsRefusal :=
  nofun

def EditorOperation.closesLevels : EditorOperation → Bool
  | invokeRestart | quitInnermost | resumeInnermost | quitLisp => true
  | _ => false

/-- How a request comes to its end, by how the work on it came out. -/
inductive Concludes (site : Site σ) (r : Request) (x : Exchange σ) :
    Except (Stop Empty) Unit × Exchange σ → Prop where
  | replied (reply : Reply) (y : Exchange σ) (h : workOn site r x = (.ok reply, y)) :
    Concludes site r x (.ok (), y.tell (reply.toMessage r.callId))
  | entered (report : Report) (y : Exchange σ)
      (h : workOn site r x = (.error (.failed (.report report)), y)) :
    Concludes site r x (.ok (), y.enterDebugger r.callId report)
  | refused (error : RequestError) (y : Exchange σ)
      (h : workOn site r x = (.error (.failed error), y)) (hrefusal : error.IsRefusal) :
    Concludes site r x (.ok (), y.tell ((Reply.abort error.message).toMessage r.callId))
  | waited {y : Exchange σ} (h : workOn site r x = (.error .stalled, y)) :
    Concludes site r x (.error .stalled, y)

theorem handleRequest_concludes (site : Site σ) (r : Request) (x : Exchange σ) :
    Concludes site r x (handleRequest site r x) := by
  unfold handleRequest
  cases hwork : workOn site r x with
  | mk got y =>
    cases got with
    | ok reply => exact .replied reply y hwork
    | error stop =>
      cases stop with
      | stalled => exact .waited hwork
      | failed error =>
        cases error with
        | report report => exact .entered report y hwork
        | _ => exact .refused _ y hwork nofun

section

variable {site : Site σ} {r : Request} {operation : EditorOperation} {x y : Exchange σ}

theorem workOn_eq (hop : EditorOperation.table.get? r.operation = some operation) :
    workOn site r = operation.handle site r.args := by
  simp only [workOn, hop]

theorem handleRequest_of_reply (hop : EditorOperation.table.get? r.operation = some operation)
    {reply : Reply} (h : operation.handle site r.args x = (.ok reply, y)) :
    handleRequest site r x = (.ok (), y.tell (reply.toMessage r.callId)) := by
  rw [handleRequest, workOn_eq hop, h]

theorem handleRequest_of_report (hop : EditorOperation.table.get? r.operation = some operation)
    {report : Report}
    (h : operation.handle site r.args x = (.error (.failed (.report report)), y)) :
    handleRequest site r x = (.ok (), y.enterDebugger r.callId report) := by
  rw [handleRequest, workOn_eq hop, h]

theorem handleRequest_returns (hop : EditorOperation.table.get? r.operation = some operation)
    (h : Op.waits (operation.handle site r.args x).1 = false) :
    ∃ y, handleRequest site r x = (.ok (), y) := by
  have hend := handleRequest_concludes site r x
  generalize handleRequest site r x = answer at hend
  cases hend with
  | replied reply y _ => exact ⟨_, rfl⟩
  | entered report y _ => exact ⟨_, rfl⟩
  | refused error y _ _ => exact ⟨_, rfl⟩
  | waited hwork =>
    rw [workOn_eq hop] at hwork
    rw [hwork] at h
    cases h

end

namespace Handler

variable {site : Site σ}

open Op (Obeys Upholds)

section

variable {α : Type} {x : Exchange σ} {l : Link σ} {s : Session σ}

theorem onLink_some {op : LinkOp σ α} (hx : x.session.link = some l) :
    onLink op x = ((op l).1.mapError (Stop.map .report),
      { x with session := { x.session with link := some (op l).2 } }) := by
  simp only [onLink, onSession, Session.onLink, hx]
  cases (op l).1 <;> rfl

theorem onLink_none {op : LinkOp σ α} (hx : x.session.link = none) :
    onLink op x = (.error (.failed (.report Session.noEvaluator)), x) := by
  simp only [onLink, onSession, Session.onLink, hx]
  rfl

theorem follow_eq {e : Evaluation} {l' : Link σ} {items : List EvalItem}
    {answer : Except (Stop Report) Unit} (hx : x.session.link = some l)
    (h : e.rest site.behaviour l = (items, answer, l')) :
    follow site.behaviour e x =
      ((answer.map fun _ => printedResult items).mapError (Stop.map .report),
        ⟨{ x.session with link := some l' }, x.sent ++ textMessages items⟩) := by
  simp only [follow, hx, h]
  cases answer <;> rfl

theorem follow_none {e : Evaluation} (hx : x.session.link = none) :
    follow site.behaviour e x = (.error (.failed (.report Session.noEvaluator)), x) := by
  simp only [follow, hx]

section

variable {level : Nat} {recovery : Recovery} {closed : DebuggerLevel}

theorem recover_ok {failure? : Option Report}
    (h : Session.recover site level recovery x.session = (.ok (closed, failure?), s)) :
    recover site level recovery x = (.ok (.abort ((failure?.map Report.message).getD "NIL")),
      ⟨s, x.sent ++ Message.closed closed⟩) := by
  have hsession : (fun x : Exchange σ => ((Session.recover site level recovery x.session).1,
      { x with session := (Session.recover site level recovery x.session).2 }) :
      Handler σ (DebuggerLevel × Option Report)) x =
      (.ok (closed, failure?), { x with session := s }) := by
    simp only [h]
  rw [Message.closed, List.append_cons]
  exact Op.bind_ok hsession

theorem recover_error {stop : Stop RequestError}
    (h : Session.recover site level recovery x.session = (.error stop, s)) :
    recover site level recovery x = (.error stop, { x with session := s }) := by
  have hsession : (fun x : Exchange σ => ((Session.recover site level recovery x.session).1,
      { x with session := (Session.recover site level recovery x.session).2 }) :
      Handler σ (DebuggerLevel × Option Report)) x = (.error stop, { x with session := s }) := by
    simp only [h]
  exact Op.bind_error hsession

theorem recover_none (h : x.session.debugger.get? level = none) : ∃ message,
    recover site level recovery x = (.error (.failed
      (.invalidArguments "swank:invoke-nth-restart-for-emacs" message)), x) := by
  have hsession : Session.recover site level recovery x.session =
      (.error (.failed (.invalidArguments "swank:invoke-nth-restart-for-emacs"
        s!"no debugger session at level {level}")), x.session) := by
    simp only [Session.recover, Debugger.take_eq, h]
  exact ⟨_, recover_error hsession⟩

/-- An open level is closed, whatever becomes of the recovery, unless it waits for ever. The reply
tells how the recovery came out. -/
theorem recover_some (hx : x.session.debugger.get? level = some closed)
    {got : Except (Stop Report) Unit}
    (h : Session.perform site recovery
      { x.session with debugger := x.session.debugger.closeFrom level } = (got, s)) :
    (got = .error .stalled →
      recover site level recovery x = (.error .stalled, { x with session := s })) ∧
    (got ≠ .error .stalled → recover site level recovery x =
      (.ok (.abort (((Op.failure? got).map Report.message).getD "NIL")),
        ⟨s, x.sent ++ Message.closed closed⟩)) := by
  constructor
  · rintro rfl
    refine recover_error ?_
    simp only [Session.recover, Debugger.take_eq, hx, h]
  · intro hdone
    cases got with
    | ok _ =>
      have hsession : Session.recover site level recovery x.session =
          (.ok (closed, none), s) := by simp only [Session.recover, Debugger.take_eq, hx, h]
      exact recover_ok hsession
    | error stop =>
      cases stop with
      | failed report =>
        have hsession : Session.recover site level recovery x.session =
            (.ok (closed, some report), s) := by simp only [Session.recover, Debugger.take_eq, hx, h]
        exact recover_ok hsession
      | stalled => exact absurd rfl hdone

end

end

section

variable {C : Contract (Exchange σ) RequestError}

/-- The steps of operations that close no level uphold a contract. -/
structure AsksUphold (C : Contract (Exchange σ) RequestError) (site : Site σ) : Prop where
  evaluated : ∀ form, Upholds C (evaluate site form)
  executed : ∀ command, Upholds C (onLink (Link.execute site.behaviour command))
  acknowledged : ∀ x report, C.failed (.report report) x → report.fatal = false →
    C.kept { x with session := { x.session with link := x.session.link.map Link.acknowledge } }
  told : ∀ x printed, C.kept x →
    C.kept { x with sent := x.sent ++ [Message.replResult printed, Message.replResult "\n"] }
  refused : ∀ x error, error.IsRefusal → C.kept x → C.failed error x

structure StepsUphold (C : Contract (Exchange σ) RequestError) (site : Site σ) : Prop
    extends AsksUphold C site where
  recovered : ∀ level recovery, Upholds C (recover site level recovery)
  quitted : ∀ x, C.kept x → C.kept { x with session := x.session.shutdown.requestStop }

namespace AsksUphold

variable (h : AsksUphold C site)
include h

theorem invalid (operation message : String) (x : Exchange σ) (hx : C.kept x) :
    C.failed (.invalidArguments operation message) x :=
  h.refused x _ (RequestError.isRefusal_invalidArguments operation message) hx

theorem textArg (operation : String) (args : List Sexp) (index : Nat) :
    Upholds C (textArg operation args index) :=
  Op.upholds_ofOption (h.invalid _ _) _

theorem integerArg (operation : String) (args : List Sexp) (index : Nat) :
    Upholds C (integerArg operation args index) :=
  Op.upholds_ofOption (h.invalid _ _) _

theorem levelArg (operation : String) (args : List Sexp) (index : Nat) :
    Upholds C (levelArg operation args index) := by
  refine (h.integerArg operation args index).bind fun level => ?_
  split
  · exact Op.upholds_pure _
  · exact Op.upholds_fail (h.invalid _ _)

theorem executeOr {α : Type} {command : String} {onError : Report → Handler σ α}
    {onValue : Sexp → Handler σ α} (he : ∀ report, Upholds C (onError report))
    (hv : ∀ value, Upholds C (onValue value)) :
    Upholds C (executeOr site command onError onValue) := by
  intro x got z hrun hx
  unfold Handler.executeOr at hrun
  cases hexecute : onLink (Link.execute site.behaviour command) x with
  | mk answer y =>
    have hy := h.executed command x answer y hexecute hx
    rw [hexecute] at hrun
    cases answer with
    | ok value => exact hv value y got z hrun hy
    | error stop =>
      cases stop with
      | stalled =>
        cases hrun
        exact hy
      | failed error =>
        cases error with
        | report report =>
          simp only at hrun
          split at hrun
          · cases hrun
            exact hy
          · rename_i hfatal
            exact he report _ got z hrun (h.acknowledged y report hy (Bool.eq_false_iff.2 hfatal))
        | _ =>
          cases hrun
          exact hy

theorem introspect (command : String) : Upholds C (introspect site command) :=
  h.executeOr (fun _ => Op.upholds_pure _) (fun _ => Op.upholds_pure _)

theorem completions (start : String) : Upholds C (completions site start) :=
  h.executeOr (fun _ => Op.upholds_pure _) (fun _ => Op.upholds_pure _)

theorem listenerEval (args : List Sexp) : Upholds C (listenerEval site args) := by
  refine (h.textArg _ _ _).bind fun form => (h.evaluated form).bind fun printed? => ?_
  cases printed? with
  | none => exact Op.upholds_pure _
  | some printed =>
    exact (Op.upholds_modify fun x => h.told x printed).bind fun _ => Op.upholds_pure _

theorem simpleCompletions (args : List Sexp) : Upholds C (simpleCompletions site args) :=
  (h.textArg _ _ _).bind fun start => (h.completions start).bind fun _ => Op.upholds_pure _

theorem fuzzyCompletions (args : List Sexp) : Upholds C (fuzzyCompletions site args) := by
  refine (h.textArg _ _ _).bind fun start => ?_
  split
  · exact Op.upholds_pure _
  · exact (h.completions start).bind fun _ => Op.upholds_pure _

/-- An operation that closes no level upholds a contract that its steps uphold. -/
theorem handle {operation : EditorOperation} (hcloses : operation.closesLevels = false)
    (args : List Sexp) : Upholds C (operation.handle site args) := by
  cases operation with
  | connectionInfo =>
    exact (h.executed _).bind fun _ => Op.upholds_get.bind fun _ => Op.upholds_pure _
  | createRepl => exact Op.upholds_get.bind fun _ => Op.upholds_pure _
  | acknowledge => exact Op.upholds_pure _
  | interactiveEval =>
    exact (h.textArg _ _ _).bind fun form => (h.evaluated form).bind fun _ => Op.upholds_pure _
  | listenerEval => exact h.listenerEval args
  | compileString =>
    exact (h.textArg _ _ _).bind fun form => (h.evaluated form).bind fun _ => Op.upholds_pure _
  | compileFile =>
    exact (h.textArg _ _ _).bind fun path => (h.evaluated _).bind fun _ => Op.upholds_pure _
  | describeSymbol => exact (h.textArg _ _ _).bind fun name => h.introspect _
  | describeFunction => exact (h.textArg _ _ _).bind fun name => h.introspect _
  | expandOnce => exact (h.textArg _ _ _).bind fun form => h.introspect _
  | simpleCompletions => exact h.simpleCompletions args
  | fuzzyCompletions => exact h.fuzzyCompletions args
  | autodoc => exact Op.upholds_pure _
  | operatorArglist => exact Op.upholds_pure _
  | invokeRestart | quitInnermost | resumeInnermost | quitLisp => cases hcloses

end AsksUphold

namespace StepsUphold

variable (h : StepsUphold C site)
include h

theorem recoverInnermost (recovery : Recovery) : Upholds C (recoverInnermost site recovery) := by
  refine Op.upholds_get.bind fun x => ?_
  cases x.session.debugger.innermost? with
  | none => exact Op.upholds_pure _
  | some innermost => exact h.recovered _ _

theorem invokeRestart (args : List Sexp) : Upholds C (invokeRestart site args) := by
  have hlevel := h.levelArg "swank:invoke-nth-restart-for-emacs" args 0
  have hindex := h.integerArg "swank:invoke-nth-restart-for-emacs" args 1
  refine hlevel.bind fun level => hindex.bind fun index => ?_
  exact (Op.upholds_ofOption (h.invalid _ _) _).bind fun recovery => h.recovered _ _

theorem handle (operation : EditorOperation) (args : List Sexp) :
    Upholds C (operation.handle site args) := by
  cases operation with
  | invokeRestart => exact h.invokeRestart args
  | quitInnermost => exact h.recoverInnermost _
  | resumeInnermost => exact h.recoverInnermost _
  | quitLisp => exact (Op.upholds_modify h.quitted).bind fun _ => Op.upholds_pure _
  | _ => exact h.toAsksUphold.handle rfl args

theorem workOn (r : Request) : Upholds C (workOn site r) := by
  unfold SlimeServer.workOn
  split
  · exact h.handle _ _
  · exact Op.upholds_fail fun x hx => h.refused x _ nofun hx

end StepsUphold

def served (C : Contract (Exchange σ) RequestError) : Contract (Exchange σ) Empty :=
  ⟨C.kept, nofun, C.waiting⟩

/-- A request upholds a contract that replies and new levels uphold too. -/
theorem StepsUphold.handleRequest (h : StepsUphold C site)
    (hreplied : ∀ x message, C.kept x → C.kept (x.tell message))
    (hrefused : ∀ x error message, C.failed error x → error.IsRefusal → C.kept (x.tell message))
    (hentered : ∀ x callId report, C.failed (.report report) x →
      C.kept (x.enterDebugger callId report)) (r : Request) :
    Upholds (served C) (handleRequest site r) := by
  intro x got z hrun hx
  have hend := handleRequest_concludes site r x
  rw [hrun] at hend
  cases hend with
  | replied reply y hwork => exact hreplied y _ (h.workOn r x _ y hwork hx)
  | entered report y hwork => exact hentered y _ report (h.workOn r x _ y hwork hx)
  | refused error y hwork hrefusal =>
    exact hrefused y error _ (h.workOn r x _ y hwork hx) hrefusal
  | waited hwork => exact h.workOn r x _ _ hwork hx

end

section

variable {R : Law (Exchange σ)}

/-- The steps that operations are made of obey a law. -/
structure StepsObey (R : Law (Exchange σ)) (site : Site σ) : Prop where
  evaluated : ∀ form, Obeys R (evaluate site form)
  executed : ∀ command, Obeys R (onLink (Link.execute site.behaviour command))
  acknowledged : ∀ x : Exchange σ, R.holds x false
    { x with session := { x.session with link := x.session.link.map Link.acknowledge } }
  told : ∀ x printed, R.holds x false
    { x with sent := x.sent ++ [Message.replResult printed, Message.replResult "\n"] }
  recovered : ∀ level recovery, Obeys R (recover site level recovery)
  quitted : ∀ x, R.holds x false { x with session := x.session.shutdown.requestStop }

namespace StepsObey

variable (h : StepsObey R site)
include h

theorem upholds (x : Exchange σ) : StepsUphold (R.contract RequestError x) site where
  evaluated form := Op.obeys_iff_upholds.1 (h.evaluated form) x
  executed command := Op.obeys_iff_upholds.1 (h.executed command) x
  acknowledged y _ hy _ := R.trans hy (h.acknowledged y)
  told y printed hy := R.trans hy (h.told y printed)
  refused _ _ _ hy := hy
  recovered level recovery := Op.obeys_iff_upholds.1 (h.recovered level recovery) x
  quitted y hy := R.trans hy (h.quitted y)

theorem workOn (r : Request) : Obeys R (workOn site r) :=
  Op.obeys_iff_upholds.2 fun x => (h.upholds x).workOn r

/-- A request obeys a law that replies and new levels obey too. -/
theorem handleRequest (hr : ∀ x message, R.holds x false (x.tell message))
    (hd : ∀ x callId report, R.holds x false (x.enterDebugger callId report)) (r : Request) :
    Obeys R (handleRequest site r) := by
  intro x
  have hserved := (h.upholds x).handleRequest (fun y message hy => R.trans hy (hr y message))
    (fun y _ message hy _ => R.trans hy (hr y message))
    (fun y callId report hy => R.trans hy (hd y callId report)) r
  cases hrun : SlimeServer.handleRequest site r x with
  | mk got y =>
    have hy := hserved x got y hrun (R.refl x)
    cases got with
    | ok _ => exact hy
    | error stop =>
      cases stop with
      | stalled => exact hy
      | failed error => exact error.elim

end StepsObey

end

section

variable {α : Type} {R : Law (Exchange σ)}

theorem obeys_onLink {op : LinkOp σ α} (h : ∀ x l, x.session.link = some l →
      R.holds x (Op.waits (op l).1)
        { x with session := { x.session with link := some (op l).2 } }) :
    Obeys R (onLink op) := by
  intro x
  cases hx : x.session.link with
  | none =>
    rw [onLink_none hx]
    exact R.refl x
  | some l =>
    rw [onLink_some hx, Op.waits_mapError]
    exact h x l hx

theorem obeys_follow {e : Evaluation} (h : ∀ x l items answer l', x.session.link = some l →
      e.rest site.behaviour l = (items, answer, l') →
      R.holds x (Op.waits answer)
        ⟨{ x.session with link := some l' }, x.sent ++ textMessages items⟩) :
    Obeys R (follow site.behaviour e) := by
  intro x
  cases hx : x.session.link with
  | none =>
    rw [follow_none hx]
    exact R.refl x
  | some l =>
    cases hr : e.rest site.behaviour l with
    | mk items result =>
      obtain ⟨answer, l'⟩ := result
      rw [follow_eq hx hr, Op.waits_mapError, Op.waits_map]
      exact h x l items answer l' hx hr

theorem obeys_recover {level : Nat} {recovery : Recovery}
    (h : ∀ x closed got s, x.session.debugger.get? level = some closed →
      Session.perform site recovery
        { x.session with debugger := x.session.debugger.closeFrom level } = (got, s) →
      (got = .error .stalled → R.holds x true { x with session := s }) ∧
        (got ≠ .error .stalled → R.holds x false ⟨s, x.sent ++ Message.closed closed⟩)) :
    Obeys R (recover site level recovery) := by
  intro x
  cases hx : x.session.debugger.get? level with
  | none =>
    obtain ⟨message, hrefused⟩ : ∃ message, recover site level recovery x = (.error (.failed
        (.invalidArguments "swank:invoke-nth-restart-for-emacs" message)), x) := recover_none hx
    rw [hrefused]
    exact R.refl x
  | some closed =>
    cases hp : Session.perform site recovery
        { x.session with debugger := x.session.debugger.closeFrom level } with
    | mk got s =>
      obtain ⟨hstalled, hdone⟩ := recover_some hx hp
      obtain ⟨hwaiting, hkept⟩ := h x closed got s hx hp
      by_cases hgot : got = .error .stalled
      · rw [hstalled hgot]
        exact hwaiting hgot
      · rw [hdone hgot]
        exact hkept hgot

end

section

variable {α : Type} {R : Law (Session σ)}

theorem obeys_onSession {op : SessionOp σ α} (h : Obeys R op) :
    Obeys R.onSession (onSession op) := by
  intro x
  have hs := h x.session
  unfold onSession
  generalize op x.session = answer at hs
  obtain ⟨got, s⟩ := answer
  cases got with
  | ok a => exact hs
  | error stop => cases stop <;> exact hs

/-- A recovery closes levels, and then it is carried out. -/
theorem obeys_recover_onSession {level : Nat} {recovery : Recovery}
    (hclose : ∀ s : Session σ, R.holds s false { s with debugger := s.debugger.closeFrom level })
    (hperform : Obeys R (Session.perform site recovery)) :
    Obeys R.onSession (recover site level recovery) := by
  refine obeys_recover fun x closed got s _ hp => ?_
  have hs := hperform { x.session with debugger := x.session.debugger.closeFrom level }
  rw [hp] at hs
  have hall : R.holds x.session (Op.waits got) s := R.trans (hclose x.session) hs
  constructor
  · rintro rfl
    exact hall
  · intro hgot
    cases got with
    | ok _ => exact hall
    | error stop =>
      cases stop with
      | failed report => exact hall
      | stalled => exact absurd rfl hgot

end

def Sends (P : Sexp → Prop) (x y : Exchange σ) : Prop :=
  ∃ messages, y.sent = x.sent ++ messages ∧ ∀ m ∈ messages, P m

theorem sends_nothing {P : Sexp → Prop} {x y : Exchange σ} (h : y.sent = x.sent) :
    Sends P x y :=
  ⟨[], by rw [h, List.append_nil], nofun⟩

theorem Sends.trans {P : Sexp → Prop} {x y z : Exchange σ} (h : Sends P x y) (h' : Sends P y z) :
    Sends P x z := by
  obtain ⟨messages, hsent, hall⟩ := h
  obtain ⟨more, hmore, hrest⟩ := h'
  exact ⟨messages ++ more, by rw [hmore, hsent, List.append_assoc],
    List.forall_mem_append.2 ⟨hall, hrest⟩⟩

def sending (P : Sexp → Prop) : Law (Exchange σ) :=
  .ofRelation (Sends P) (fun _ => sends_nothing rfl) Sends.trans

structure Telling (P : Sexp → Prop) : Prop where
  writeString : ∀ text, P (Message.writeString text)
  replResult : ∀ text, P (Message.replResult text)
  closed : ∀ level, ∀ m ∈ Message.closed level, P m

theorem Telling.mono {P Q : Sexp → Prop} (h : Telling P) (hpq : ∀ m, P m → Q m) : Telling Q where
  writeString text := hpq _ (h.writeString text)
  replResult text := hpq _ (h.replResult text)
  closed level m hm := hpq m (h.closed level m hm)

theorem Telling.textMessages {P : Sexp → Prop} (h : Telling P) (items : List EvalItem) :
    ∀ m ∈ textMessages items, P m := by
  intro m hm
  obtain ⟨item, -, hitem⟩ := List.mem_filterMap.1 hm
  cases item with
  | text text =>
    cases hitem
    exact h.writeString text
  | _ => cases hitem

theorem sending_steps {P : Sexp → Prop} (h : Telling P) : StepsObey (sending P) site where
  evaluated _ := (obeys_onLink fun _ _ _ => sends_nothing rfl).bind fun _ =>
    obeys_follow fun _ _ items _ _ _ _ => ⟨textMessages items, rfl, h.textMessages items⟩
  executed _ := obeys_onLink fun _ _ _ => sends_nothing rfl
  acknowledged _ := sends_nothing rfl
  told _ printed := ⟨[Message.replResult printed, Message.replResult "\n"], rfl,
    List.forall_mem_cons.2 ⟨h.replResult printed, List.forall_mem_singleton.2 (h.replResult "\n")⟩⟩
  recovered _ _ := obeys_recover fun _ closed _ _ _ _ =>
    ⟨fun _ => sends_nothing rfl, fun _ => ⟨Message.closed closed, rfl, h.closed closed⟩⟩
  quitted _ := sends_nothing rfl

section

variable {operation : String} {args : List Sexp} {index : Nat}

theorem textArg_some {text : String}
    (h : (args[index]?.map Sexp.unquote).bind Sexp.designator? = some text) :
    (textArg operation args index : Handler σ String) = pure text := by
  simp only [textArg, h]
  rfl

theorem textArg_none (h : (args[index]?.map Sexp.unquote).bind Sexp.designator? = none) :
    ∃ message, (textArg operation args index : Handler σ String) =
      Op.fail (.invalidArguments operation message) := by
  simp only [textArg, h]
  exact ⟨_, rfl⟩

theorem integerArg_some {number : Int64} (h : args[index]?.bind Sexp.integer? = some number) :
    (integerArg operation args index : Handler σ Int64) = pure number := by
  simp only [integerArg, h]
  rfl

theorem integerArg_none (h : args[index]?.bind Sexp.integer? = none) :
    ∃ message, (integerArg operation args index : Handler σ Int64) =
      Op.fail (.invalidArguments operation message) := by
  simp only [integerArg, h]
  exact ⟨_, rfl⟩

end

end Handler

end SlimeServer
