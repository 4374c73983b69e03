import SlimeServer.Proofs.Editor.Message
import SlimeServer.Proofs.Editor.Operations
import SlimeServer.Proofs.Editor.Run
import SlimeServer.Proofs.Evaluator.Debugger
import SlimeServer.Proofs.Evaluator.Evaluation
import SlimeServer.Proofs.Evaluator.Waiting
/-!
# Accounting for replies

Every request is paid for once: by a reply, or by a debugger level that a later reply closes. So
over any run the requests answered and the requests whose levels are open are together no more than
the requests received.
-/
namespace SlimeServer

open Op (Obeys)

variable {σ : Type}

namespace Debugger

def callIds (d : Debugger) : List Int64 := d.levels.map DebuggerLevel.callId

theorem callIds_push (d : Debugger) (callId : Int64) (report : Report) :
    (d.push callId report).callIds = d.callIds ++ [callId] := by
  simp [callIds, push, nextLevel]

theorem count_callIds_closeFrom {d : Debugger} {level : Nat} {closed : DebuggerLevel}
    (h : d.get? level = some closed) (callId : Int64) :
    [closed.callId].count callId + (d.closeFrom level).callIds.count callId ≤
      d.callIds.count callId := by
  cases level with
  | zero => cases h
  | succ i =>
    obtain ⟨hlevels, hclose⟩ := levels_of_get? h
    rw [callIds, callIds, hclose]
    conv => rhs; rw [hlevels]
    simp only [List.map_append, List.map_cons, List.count_append, List.count_cons, List.count_nil]
    omega

end Debugger

namespace Session

/-- What a session may wait for without end: an evaluator from which nothing more comes, or one
that was started last and never connects. -/
def Waits (site : Site σ) (s : Session σ) : Prop :=
  (∃ l, s.link = some l ∧ l.peer.Silent) ∨
    ∃ n port peer, s.attempts = n + 1 ∧ s.retired.getLast? = some peer ∧
      site.attempt n s.settings = .started port peer .never

def closing (site : Site σ) : Law (Session σ) where
  holds s w t := t.debugger.levels <+: s.debugger.levels ∧ (w = true → t.Waits site)
  refl _ := ⟨List.prefix_rfl, fun h => absurd h Bool.false_ne_true⟩
  trans h h' := ⟨h'.1.trans h.1, h'.2⟩

variable {α : Type} {site : Site σ}

theorem closing_modify {f : Session σ → Session σ}
    (h : ∀ s, (f s).debugger.levels <+: s.debugger.levels) :
    Obeys (closing site) (Op.modify f : SessionOp σ Unit) :=
  Op.obeys_modify fun s => ⟨h s, fun hw => absurd hw Bool.false_ne_true⟩

theorem closing_onLink (site : Site σ) {op : LinkOp σ α} (h : Obeys Link.silence op) :
    Obeys (closing site) (onLink op) := by
  intro s
  unfold onLink
  cases hl : s.link with
  | none => exact ⟨List.prefix_rfl, fun hw => absurd hw Bool.false_ne_true⟩
  | some l => exact ⟨List.prefix_rfl, fun hw => .inl ⟨_, rfl, h l hw⟩⟩

theorem closing_adopt (port : Nat) (peer : Peer σ) :
    Obeys (closing site) (adopt site.behaviour port peer) := by
  intro s
  unfold adopt
  have hwrite := Link.obeys_writeStdin site.behaviour
    (Link.moves_waiting fun _ => False) initCommand (.connected peer port s.settings.tuning)
  generalize Link.writeStdin site.behaviour initCommand _ = answer at hwrite
  obtain ⟨got, l⟩ := answer
  cases got with
  | ok _ => exact ⟨List.prefix_rfl, fun hw => absurd hw Bool.false_ne_true⟩
  | error stop =>
    cases stop with
    | failed report => exact ⟨List.prefix_rfl, fun hw => absurd hw Bool.false_ne_true⟩
    | stalled => exact (hwrite rfl).elim

theorem closing_launch : Obeys (closing site) (launch site) := by
  intro s
  rw [launch]
  cases ha : site.attempt s.attempts s.settings with
  | failed message => exact ⟨List.prefix_rfl, fun hw => absurd hw Bool.false_ne_true⟩
  | started port peer arrival =>
    cases arrival with
    | connected => exact closing_adopt port peer _
    | never =>
      refine ⟨List.prefix_rfl, fun _ => .inr ⟨s.attempts, port, peer, rfl, ?_, ha⟩⟩
      exact List.getLast?_concat ..
    | _ => exact ⟨List.prefix_rfl, fun hw => absurd hw Bool.false_ne_true⟩

theorem closing_perform (site : Site σ) (recovery : Recovery) :
    Obeys (closing site) (perform site recovery) := by
  cases recovery with
  | quit =>
    refine (closing_modify fun _ => List.nil_prefix).bind fun _ => Op.obeys_get.bind fun s => ?_
    cases s.link with
    | none => exact Op.obeys_pure ()
    | some l =>
      cases h : l.isFailed with
      | true => simp only [h, if_true]; exact Op.obeys_pure ()
      | false =>
        simp only [h, Bool.false_eq_true, if_false]
        exact closing_onLink site (Link.obeys_resetToTopLevel _ Link.steps_silence)
  | resume => exact closing_modify fun _ => List.prefix_rfl
  | restart => exact (closing_modify fun _ => List.nil_prefix).bind fun _ => closing_launch

end Session

open Message (answered? opens answeredIds answeredIds_append)

namespace Exchange

/-- Between two states, messages were sent that open no level, and every request answered by them
had a level that has been closed. -/
def Settles (x y : Exchange σ) : Prop :=
  ∃ messages, y.sent = x.sent ++ messages ∧ (∀ m ∈ messages, opens m = false) ∧
    ∀ c, (answeredIds messages).count c + y.session.debugger.callIds.count c ≤
      x.session.debugger.callIds.count c

theorem settles_refl (x : Exchange σ) : x.Settles x :=
  ⟨[], (List.append_nil _).symm, by simp, by simp [answeredIds]⟩

theorem Settles.trans {x y z : Exchange σ} (h : x.Settles y) (h' : y.Settles z) : x.Settles z := by
  obtain ⟨messages, hsent, hopens, hcount⟩ := h
  obtain ⟨more, hsent', hopens', hcount'⟩ := h'
  refine ⟨messages ++ more, by rw [hsent', hsent, List.append_assoc], ?_, ?_⟩
  · intro m hm
    rcases List.mem_append.1 hm with hm | hm
    · exact hopens m hm
    · exact hopens' m hm
  · intro c
    have h₁ := hcount c
    have h₂ := hcount' c
    rw [answeredIds_append, List.count_append]
    omega

theorem settles_quietly {x y : Exchange σ} {messages : List Sexp}
    (hsent : y.sent = x.sent ++ messages)
    (hm : ∀ m ∈ messages, opens m = false ∧ answered? m = none)
    (hd : y.session.debugger.levels <+: x.session.debugger.levels) : x.Settles y := by
  refine ⟨messages, hsent, fun m h => (hm m h).1, fun c => ?_⟩
  have hnone : answeredIds messages = [] := Message.answeredIds_eq_nil fun m h => (hm m h).2
  have hle := (hd.map DebuggerLevel.callId).sublist.count_le c
  rw [hnone, List.count_nil, Nat.zero_add]
  exact hle

/-- The law of accounting, with what is waited for where an operation does not come to its end. -/
def accounting (site : Site σ) : Law (Exchange σ) where
  holds x w y := x.Settles y ∧ (w = true → y.session.Waits site)
  refl x := ⟨x.settles_refl, fun h => absurd h Bool.false_ne_true⟩
  trans h h' := ⟨h.1.trans h'.1, h'.2⟩

end Exchange

namespace Handler

open Exchange (accounting settles_quietly)

variable {α : Type} {site : Site σ}

theorem accounting_onLink {op : LinkOp σ α} (h : Obeys Link.silence op) :
    Obeys (accounting site) (onLink op) :=
  obeys_onLink fun x l _ => ⟨settles_quietly (List.append_nil _).symm (by simp) List.prefix_rfl,
    fun hw => .inl ⟨_, rfl, h l hw⟩⟩

theorem quiet_textMessages (items : List EvalItem) :
    ∀ m ∈ textMessages items, opens m = false ∧ answered? m = none := by
  intro m hm
  obtain ⟨item, -, hitem⟩ := List.mem_filterMap.1 hm
  cases item with
  | text text =>
    cases hitem
    exact ⟨Message.opens_writeString text, Message.answered?_writeString text⟩
  | _ => cases hitem

theorem accounting_follow (e : Evaluation) :
    Obeys (accounting site) (follow site.behaviour e) := by
  refine obeys_follow fun x l items answer l' _ hr =>
    ⟨settles_quietly rfl (quiet_textMessages items) List.prefix_rfl, fun hw => ?_⟩
  cases answer with
  | ok _ => exact absurd hw Bool.false_ne_true
  | error stop =>
    cases stop with
    | failed report => exact absurd hw Bool.false_ne_true
    | stalled => exact .inl ⟨l', rfl, Evaluation.silent_of_rest hr⟩

theorem settles_closed {level : Nat} {closed : DebuggerLevel} {x : Exchange σ} {s : Session σ}
    (h : x.session.debugger.get? level = some closed)
    (hs : s.debugger.levels <+: (x.session.debugger.closeFrom level).levels) :
    x.Settles ⟨s, x.sent ++ Message.closed closed⟩ := by
  refine ⟨Message.closed closed, rfl, by simp [Message.closed], fun c => ?_⟩
  have hclose := Debugger.count_callIds_closeFrom h c
  have hle := (hs.map DebuggerLevel.callId).sublist.count_le c
  rw [Message.answeredIds_closed]
  simp only [Debugger.callIds] at hclose ⊢
  omega

theorem accounting_recover (level : Nat) (recovery : Recovery) :
    Obeys (accounting site) (recover site level recovery) := by
  refine obeys_recover fun x closed got s hclosed hperform => ?_
  have hs := Session.closing_perform site recovery
    { x.session with debugger := x.session.debugger.closeFrom level }
  rw [hperform] at hs
  have hlevels := hs.1.trans (Debugger.closeFrom_levels x.session.debugger level)
  refine ⟨fun hstalled => ⟨settles_quietly (List.append_nil _).symm (by simp) hlevels, fun _ => ?_⟩,
    fun _ => ⟨settles_closed hclosed hs.1, fun hw => absurd hw Bool.false_ne_true⟩⟩
  exact hs.2 (by rw [hstalled]; rfl)

theorem accounting_steps : StepsObey (accounting site) site where
  evaluated form :=
    (accounting_onLink (Link.obeys_eval _ Link.steps_silence form)).bind accounting_follow
  executed command := accounting_onLink (Link.obeys_execute _ Link.steps_silence command)
  acknowledged x := ⟨settles_quietly (List.append_nil _).symm (by simp) List.prefix_rfl,
    fun hw => absurd hw Bool.false_ne_true⟩
  told x printed := ⟨settles_quietly rfl (by simp) List.prefix_rfl,
    fun hw => absurd hw Bool.false_ne_true⟩
  recovered := accounting_recover
  quitted x := ⟨settles_quietly (List.append_nil _).symm (by simp) List.nil_prefix,
    fun hw => absurd hw Bool.false_ne_true⟩

end Handler

/-- The messages of a request that has come to its end: its reply is the last one, or the last two
open a level for it. Nothing before them ends it. -/
def EndsRequest (callId : Int64) (messages : List Sexp) : Prop :=
  ∃ before, (∀ m ∈ before, answered? m ≠ some callId ∧ opens m = false) ∧
    ((∃ reply : Reply, messages = before ++ [reply.toMessage callId]) ∨
      ∃ level : DebuggerLevel, level.callId = callId ∧
        messages = before ++ [Message.debug level, Message.debugActivate level.level])

section

variable {site : Site σ} {x : Exchange σ} {payloads : List (List UInt8)}

/-- A request settles open levels, and then it is replied to, opens a level, or waits for ever. -/
theorem handleRequest_settles (site : Site σ) (r : Request) (x : Exchange σ) :
    ∃ y, x.Settles y ∧
      ((∃ reply : Reply, handleRequest site r x = (.ok (), y.tell (reply.toMessage r.callId))) ∨
        (∃ report, handleRequest site r x = (.ok (), y.enterDebugger r.callId report)) ∨
        handleRequest site r x = (.error .stalled, y) ∧ y.session.Waits site) := by
  have hsteps : Handler.StepsObey (Exchange.accounting site) site := Handler.accounting_steps
  have hlaw := hsteps.workOn r x
  have hend := handleRequest_concludes site r x
  generalize handleRequest site r x = answer at hend
  cases hend with
  | replied reply y hwork =>
    rw [hwork] at hlaw
    exact ⟨y, hlaw.1, .inl ⟨reply, rfl⟩⟩
  | entered report y hwork =>
    rw [hwork] at hlaw
    exact ⟨y, hlaw.1, .inr (.inl ⟨report, rfl⟩)⟩
  | refused error y hwork _ =>
    rw [hwork] at hlaw
    exact ⟨y, hlaw.1, .inl ⟨.abort error.message, rfl⟩⟩
  | @waited y hwork =>
    rw [hwork] at hlaw
    exact ⟨y, hlaw.1, .inr (.inr ⟨rfl, hlaw.2 rfl⟩)⟩

/-- The requests that a request answers and leaves open are among those open before and itself. -/
theorem handleRequest_count (site : Site σ) (r : Request) (x : Exchange σ) :
    ∃ messages, (handleRequest site r x).2.sent = x.sent ++ messages ∧
      ∀ c, (answeredIds messages).count c +
        (handleRequest site r x).2.session.debugger.callIds.count c ≤
          x.session.debugger.callIds.count c + [r.callId].count c := by
  obtain ⟨y, ⟨messages, hsent, -, hcount⟩, ⟨reply, h⟩ | ⟨report, h⟩ | ⟨h, -⟩⟩ :=
    handleRequest_settles site r x
  · refine ⟨messages ++ [reply.toMessage r.callId], ?_, fun c => ?_⟩
    · rw [h]
      simp only [Exchange.tell, hsent, List.append_assoc]
    · have := hcount c
      rw [h, answeredIds_append, List.count_append]
      simp only [Exchange.tell, answeredIds, List.filterMap_cons, Message.answered?_reply,
        List.filterMap_nil] at this ⊢
      omega
  · refine ⟨messages ++ [Message.debug (y.session.debugger.nextLevel r.callId report),
      Message.debugActivate (y.session.debugger.nextLevel r.callId report).level], ?_, fun c => ?_⟩
    · rw [h]
      simp only [Exchange.enterDebugger, Exchange.tell, hsent, List.append_assoc,
        List.cons_append, List.nil_append]
    · have := hcount c
      rw [h, answeredIds_append, List.count_append]
      simp only [Exchange.enterDebugger, Exchange.tell, Debugger.callIds_push, List.count_append,
        answeredIds, List.filterMap_cons, Message.answered?_debug, Message.answered?_debugActivate,
        List.filterMap_nil, List.count_nil] at this ⊢
      omega
  · refine ⟨messages, by rw [h]; exact hsent, fun c => ?_⟩
    have := hcount c
    simp only [h]
    omega

/-- The run over payloads: requests answered and requests open are together no more than those
open at first and those received. -/
theorem handlePayloads_count (site : Site σ) (payloads : List (List UInt8)) (x : Exchange σ) :
    ∃ messages, (handlePayloads site payloads x).2.sent = x.sent ++ messages ∧
      ∀ c, (answeredIds messages).count c +
        (handlePayloads site payloads x).2.session.debugger.callIds.count c ≤
          x.session.debugger.callIds.count c + (requestIds payloads).count c := by
  rw [handlePayloads_eq, requestIds]
  generalize payloads.filterMap requestIn? = requests
  induction requests generalizing x with
  | nil => exact ⟨[], (List.append_nil _).symm, by simp [handleRequests, answeredIds]⟩
  | cons r rest ih =>
    obtain ⟨messages, hsent, hcount⟩ := handleRequest_count site r x
    rw [handleRequests, Op.bind_apply, List.map_cons]
    generalize handleRequest site r x = answer at hsent hcount
    obtain ⟨got, y⟩ := answer
    cases got with
    | error stop =>
      refine ⟨messages, hsent, fun c => ?_⟩
      have := hcount c
      rw [List.count_cons]
      simp only [List.count_cons, List.count_nil] at this ⊢
      omega
    | ok _ =>
      obtain ⟨more, hmore, hcount'⟩ := ih y
      refine ⟨messages ++ more, by rw [hmore, hsent, List.append_assoc], fun c => ?_⟩
      have h₁ := hcount c
      have h₂ := hcount' c
      change _ + (handleRequests site rest y).2.session.debugger.callIds.count c ≤ _
      rw [answeredIds_append, List.count_append, List.count_cons]
      simp only [List.count_cons, List.count_nil] at h₁
      omega

/-- A request whose id stands at no open level comes to its end once, or waits for ever. -/
theorem handleRequest_ends {r : Request}
    (hfresh : x.session.debugger.callIds.count r.callId = 0) :
    ∃ messages, (handleRequest site r x).2.sent = x.sent ++ messages ∧
      ((handleRequest site r x).1 = .ok () ∧ EndsRequest r.callId messages ∨
        (handleRequest site r x).1 = .error .stalled ∧
          (∀ m ∈ messages, answered? m ≠ some r.callId ∧ opens m = false) ∧
          (handleRequest site r x).2.session.Waits site) := by
  obtain ⟨y, ⟨messages, hsent, hopens, hsettled⟩, hend⟩ := handleRequest_settles site r x
  have hquiet : ∀ m ∈ messages, answered? m ≠ some r.callId ∧ opens m = false := by
    intro m hm
    refine ⟨fun hanswered => ?_, hopens m hm⟩
    have hmem : r.callId ∈ answeredIds messages := List.mem_filterMap.2 ⟨m, hm, hanswered⟩
    have hpos := List.count_pos_iff.2 hmem
    have hle := hsettled r.callId
    omega
  rcases hend with ⟨reply, h⟩ | ⟨report, h⟩ | ⟨h, hwaits⟩
  · refine ⟨messages ++ [reply.toMessage r.callId], ?_, .inl ⟨by rw [h], ?_⟩⟩
    · rw [h]
      simp only [Exchange.tell, hsent, List.append_assoc]
    · exact ⟨messages, hquiet, .inl ⟨reply, rfl⟩⟩
  · refine ⟨messages ++ [Message.debug (y.session.debugger.nextLevel r.callId report),
      Message.debugActivate (y.session.debugger.nextLevel r.callId report).level], ?_,
      .inl ⟨by rw [h], ?_⟩⟩
    · rw [h]
      simp only [Exchange.enterDebugger, Exchange.tell, hsent, List.append_assoc,
        List.cons_append, List.nil_append]
    · exact ⟨messages, hquiet, .inr ⟨y.session.debugger.nextLevel r.callId report, rfl, rfl⟩⟩
  · rw [h]
    exact ⟨messages, hsent, .inr ⟨rfl, hquiet, hwaits⟩⟩

theorem count_callIds_empty (hopen : x.session.debugger = .empty) (c : Int64) :
    x.session.debugger.callIds.count c = 0 := by
  rw [hopen]
  rfl

/-- An id that comes only once stands at no open level before its request is handled. -/
theorem fresh_of_nodup {before after : List (List UInt8)} {payload : List UInt8} {r : Request}
    {y : Exchange σ} (hopen : x.session.debugger = .empty)
    (hids : (requestIds (before ++ payload :: after)).Nodup)
    (hbefore : handlePayloads site before x = (.ok (), y)) (hr : requestIn? payload = some r) :
    y.session.debugger.callIds.count r.callId = 0 := by
  obtain ⟨sent, -, hcount⟩ := handlePayloads_count site before x
  rw [hbefore] at hcount
  rw [requestIds_append, requestIds_cons_of_request after hr, List.nodup_iff_count] at hids
  have honce := hids r.callId
  have hle := hcount r.callId
  have hnone := count_callIds_empty hopen r.callId
  rw [List.count_append, List.count_cons_self] at honce
  simp only at hle
  omega

def abortedPayloads : List (List UInt8) :=
  [Utf8.encode "(:emacs-rex (swank:interactive-eval \"1\") nil t 1)", Utf8.encode "(",
    Utf8.encode "(:emacs-rex (swank:sldb-abort) nil t 2)"]

end

end SlimeServer
