import SlimeServer.Proofs.Editor.Operations
import SlimeServer.Proofs.Editor.Run
import SlimeServer.Proofs.Editor.Table
import SlimeServer.Proofs.Evaluator.Evaluation
import SlimeServer.Proofs.Sexp.RoundTrip
/-!
# Messages that can be read back

What the evaluator prints reaches the editor in strings, and a string is read back whatever it
holds. The description of the connection alone has a value of the evaluator in it as it is, and it
is read back exactly when that value is.
-/
namespace SlimeServer

open Sexp

variable {σ : Type}

namespace Link

def Legible (payload : List UInt8) : Prop :=
  ∃ value, read (Text.stripColor (Utf8.decodeLossy payload)) = .ok value ∧
    ∀ x, .float x ∈ value.leaves → ofAtom x.write = .float x

/-- The value of a result is read back unless its text could not be read in the first place. -/
theorem readsBack_resultOf_iff (payload : List UInt8) :
    (resultOf payload).1.ReadsBack ↔ Legible payload := by
  rw [resultOf, Legible]
  cases hread : read (Text.stripColor (Utf8.decodeLossy payload)) with
  | ok value =>
    constructor
    · exact fun h => ⟨value, rfl, (readsBack_iff.1 h).2⟩
    · rintro ⟨_, ⟨⟩, hfloats⟩
      exact readsBack_iff.2 ⟨readable_of_read hread, hfloats⟩
  | error error =>
    constructor
    · intro h
      have hprint : read (Sexp.symbol (Text.stripColor (Utf8.decodeLossy payload))).print = _ := h
      rw [print, printChars, String.ofList_toList, hread] at hprint
      cases hprint
    · rintro ⟨_, ⟨⟩, -⟩

section

open Op (Returns)

variable {α : Type} (b : Behaviour σ)

theorem returns_noting {P : α → Prop} {op : LinkOp σ α} (h : Returns P op) :
    Returns P (noting op) := by
  intro l a l' hrun
  rw [noting] at hrun
  cases hop : op l with
  | mk got l₁ =>
    rw [hop] at hrun
    cases got with
    | ok _ =>
      cases hrun
      exact h l a _ hop
    | error stop => cases stop <;> cases hrun

def Brought (value : Sexp) : Prop := value = .nil ∨ ∃ payload, value = (resultOf payload).1

theorem returns_readOutcome (deferring : Bool) :
    Returns (fun outcome => ∀ value printed, outcome = .result value printed → Brought value)
      (readOutcome deferring : LinkOp σ Outcome) := by
  refine Op.returns_bind fun payload => ?_
  cases tagOf payload with
  | result =>
    refine Op.returns_bind fun second => Op.returns_pure ?_
    rintro value printed ⟨⟩
    exact .inr ⟨second, rfl⟩
  | error =>
    cases deferring with
    | true => exact Op.returns_pure nofun
    | false => exact Op.returns_bind fun _ => Op.returns_bind fun _ => Op.returns_pure nofun
  | abort => exact Op.returns_pure nofun
  | unknown => exact Op.returns_fail _

theorem returns_execute (command : String) : Returns Brought (execute b command) := by
  refine Op.returns_bind fun _ => Op.returns_bind fun _ =>
    returns_noting (Op.returns_bind fun _ => (returns_readOutcome false).bind fun outcome ho => ?_)
  cases outcome with
  | result value printed => exact Op.returns_pure (ho value printed rfl)
  | error message => exact Op.returns_bind fun _ => Op.returns_bind fun _ => Op.returns_fail _
  | abort => exact Op.returns_pure (.inl rfl)
  | deferred => exact Op.returns_pure (.inl rfl)

end

end Link

namespace Message

variable (text : String) (level : DebuggerLevel) (number : Nat) (callId : Int64)

theorem readsBack_writeString : (writeString text).ReadsBack := by
  simp (disch := decide) [writeString, readsBack_list, readsBack_keyword]

theorem readsBack_replResult : (replResult text).ReadsBack := by
  simp (disch := decide) [replResult, readsBack_list, readsBack_keyword]

theorem readsBack_debugReturn : (debugReturn number).ReadsBack := by
  simp (disch := decide) [debugReturn, thread, levelNumber, readsBack_list, readsBack_keyword]

theorem readsBack_debugActivate : (debugActivate number).ReadsBack := by
  simp (disch := decide) [debugActivate, thread, levelNumber, readsBack_list, readsBack_keyword]

theorem readsBack_frame (frame : StackFrame) : frame.toSexp.ReadsBack := by
  have hflag : (ofBool frame.restartable).ReadsBack := by
    rw [ofBool]
    split
    · exact readsBack_truth
    · exact readsBack_nil
  simp (disch := decide) [StackFrame.toSexp, plist, readsBack_list, readsBack_keyword, hflag]

theorem readsBack_debug : (debug level).ReadsBack := by
  have hrestarts : Recovery.allToSexp.ReadsBack := by
    simp [Recovery.allToSexp, readsBack_list]
  have hframes : (StackFrame.listToSexp level.frames).ReadsBack := by
    rw [StackFrame.listToSexp, readsBack_list]
    intro item hitem
    obtain ⟨frame, -, rfl⟩ := List.mem_map.1 hitem
    exact readsBack_frame frame
  simp (disch := decide) [debug, thread, levelNumber, readsBack_list, readsBack_keyword, hrestarts,
    hframes]

theorem readsBack_abort (message : String) :
    ((Reply.abort message).toMessage callId).ReadsBack := by
  simp (disch := decide) [Reply.toMessage, readsBack_list, readsBack_keyword]

theorem readsBack_ok_iff {value : Sexp} :
    ((Reply.ok value).toMessage callId).ReadsBack ↔ value.ReadsBack := by
  simp (disch := decide) [Reply.toMessage, readsBack_list, readsBack_keyword]

end Message

namespace Handler

open Op (Obeys Returns)

variable {site : Site σ}

/-- What the editor is told about the bridge, and about an evaluator by its name and its version. -/
def description (site : Site σ) (implementation : String) (version : Sexp) : Sexp :=
  let name := Sexp.string implementation
  let machine := Sexp.string site.machine
  .plist [
    ("pid", .integer site.processId),
    ("style", .nil),
    ("encoding", .plist [
      ("coding-systems", .list [.string "utf-8-unix", .string "iso-latin-1-unix"])]),
    ("lisp-implementation", .plist [
      ("type", name), ("name", name), ("version", version), ("program", .nil)]),
    ("machine", .plist [("type", machine), ("version", machine)]),
    ("package", .plist [("name", name), ("prompt", name)]),
    ("version", .string protocolVersion)]

theorem readsBack_description_iff {implementation : String} {version : Sexp} :
    (description site implementation version).ReadsBack ↔ version.ReadsBack := by
  simp (disch := decide) [description, plist, readsBack_list, readsBack_keyword]

theorem readsBack_compilationResult : compilationResult.ReadsBack := by
  have hsecond : ofAtom (Double.ofDecimal false 1 (-2)).write =
      .float (.ofDecimal false 1 (-2)) := by
    decide +kernel
  simp (disch := decide) [compilationResult, readsBack_list, readsBack_keyword,
    readsBack_float_iff, hsecond]

def Legible (reply : Reply) : Prop := ∀ value, reply = .ok value → value.ReadsBack

def Described (site : Site σ) (reply : Reply) : Prop :=
  ∃ implementation version, Link.Brought version ∧
    reply = .ok (description site implementation version)

theorem legible_abort (message : String) : Legible (.abort message) := nofun

theorem legible_ok {value : Sexp} (h : value.ReadsBack) : Legible (.ok value) := by
  rintro _ ⟨⟩
  exact h

theorem legible_string (text : String) : Legible (.ok (.string text)) :=
  legible_ok (readsBack_string text)

theorem legible_completionReply (names : List String) (common : String) :
    Legible (completionReply names common) := by
  refine legible_ok ?_
  simp [readsBack_list]

theorem returns_onLink {α : Type} {P : α → Prop} {op : LinkOp σ α} (h : Returns P op) :
    Returns P (onLink op) := by
  intro x a y hrun
  cases hx : x.session.link with
  | none =>
    rw [onLink_none hx] at hrun
    cases hrun
  | some l =>
    rw [onLink_some hx] at hrun
    cases hop : op l with
    | mk got l' =>
      rw [hop] at hrun
      cases got with
      | ok _ =>
        cases hrun
        exact h l a l' hop
      | error stop => cases hrun

theorem returns_executeOr {α : Type} {P : α → Prop} {command : String}
    {onError : Report → Handler σ α} {onValue : Sexp → Handler σ α}
    (he : ∀ report, Returns P (onError report)) (hv : ∀ value, Returns P (onValue value)) :
    Returns P (executeOr site command onError onValue) := by
  intro x a z hrun
  unfold executeOr at hrun
  cases hexecute : onLink (Link.execute site.behaviour command) x with
  | mk got y =>
    rw [hexecute] at hrun
    cases got with
    | ok value => exact hv value y a z hrun
    | error stop =>
      cases stop with
      | stalled => cases hrun
      | failed error =>
        cases error with
        | report report =>
          simp only at hrun
          split at hrun
          · cases hrun
          · exact he report _ a z hrun
        | _ => cases hrun

theorem returns_introspect (command : String) : Returns Legible (introspect site command) :=
  returns_executeOr (fun _ => Op.returns_pure (legible_abort _))
    (fun _ => Op.returns_pure (legible_string _))

theorem returns_recover (level : Nat) (recovery : Recovery) :
    Returns Legible (recover site level recovery) :=
  Op.returns_bind fun _ => Op.returns_bind fun _ => Op.returns_bind fun _ =>
    Op.returns_pure (legible_abort _)

theorem returns_recoverInnermost (recovery : Recovery) :
    Returns Legible (recoverInnermost site recovery) := by
  refine Op.returns_bind fun x => ?_
  cases x.session.debugger.innermost? with
  | none => exact Op.returns_pure (legible_abort _)
  | some innermost => exact returns_recover _ _

theorem returns_fuzzyCompletions (args : List Sexp) :
    Returns Legible (fuzzyCompletions site args) := by
  refine Op.returns_bind fun start => ?_
  split
  · exact Op.returns_pure (legible_ok readsBack_nil)
  · exact Op.returns_bind fun _ => Op.returns_pure (legible_completionReply _ _)

theorem returns_connectionInfo : Returns (Described site) (connectionInfo site) := by
  have hversion : Returns Link.Brought
      (onLink (Link.execute site.behaviour "(lisp-implementation-version)")) :=
    returns_onLink (Link.returns_execute _ _)
  exact hversion.bind fun version hbrought => Op.returns_bind fun x =>
    Op.returns_pure ⟨x.session.settings.implementation, version, hbrought, rfl⟩

/-- Every operation but one answers with a value that is read back. -/
theorem returns_handle {operation : EditorOperation} (h : operation ≠ .connectionInfo)
    (args : List Sexp) : Returns Legible (operation.handle site args) := by
  cases operation with
  | connectionInfo => exact absurd rfl h
  | createRepl =>
    refine Op.returns_bind fun x => Op.returns_pure (legible_ok ?_)
    simp [readsBack_list]
  | acknowledge => exact Op.returns_pure (legible_ok readsBack_nil)
  | interactiveEval =>
    exact Op.returns_bind fun _ => Op.returns_bind fun _ => Op.returns_pure (legible_string _)
  | listenerEval =>
    refine Op.returns_bind fun _ => Op.returns_bind fun printed? => ?_
    have hend : Returns Legible (pure (.ok .nil) : Handler σ Reply) :=
      Op.returns_pure (legible_ok readsBack_nil)
    cases printed? with
    | none => exact hend
    | some printed => exact Op.returns_bind fun _ => hend
  | compileString | compileFile =>
    refine Op.returns_bind fun _ => Op.returns_bind fun _ => Op.returns_pure (legible_ok ?_)
    exact readsBack_compilationResult
  | describeSymbol | describeFunction | expandOnce =>
    exact Op.returns_bind fun _ => returns_introspect _
  | simpleCompletions =>
    exact Op.returns_bind fun _ => Op.returns_bind fun _ =>
      Op.returns_pure (legible_completionReply _ _)
  | fuzzyCompletions => exact returns_fuzzyCompletions args
  | autodoc =>
    refine Op.returns_pure (legible_ok ?_)
    simp (disch := decide) [readsBack_list, readsBack_keyword]
  | operatorArglist => exact Op.returns_pure (legible_string _)
  | invokeRestart =>
    exact Op.returns_bind fun _ => Op.returns_bind fun _ => Op.returns_bind fun _ =>
      returns_recover _ _
  | quitInnermost | resumeInnermost => exact returns_recoverInnermost _
  | quitLisp => exact Op.returns_bind fun _ => Op.returns_pure (legible_ok readsBack_nil)

theorem telling_readsBack : Telling ReadsBack where
  writeString := Message.readsBack_writeString
  replResult := Message.readsBack_replResult
  closed _ := List.forall_mem_cons.2 ⟨Message.readsBack_debugReturn _,
    List.forall_mem_singleton.2 (Message.readsBack_abort _ _)⟩

end Handler

/-- A message that describes the connection in answer to a request, with the value of a result that
is not read back. -/
def Undescribed (site : Site σ) (r : Request) (m : Sexp) : Prop :=
  EditorOperation.table.get? r.operation = some .connectionInfo ∧
    ∃ implementation payload, ¬ Link.Legible payload ∧
      m = (Reply.ok (Handler.description site implementation
        (Link.resultOf payload).1)).toMessage r.callId

section

variable {site : Site σ}

theorem workOn_readsBack {r : Request} {x y : Exchange σ} {reply : Reply}
    (h : workOn site r x = (.ok reply, y)) :
    (reply.toMessage r.callId).ReadsBack ∨ Undescribed site r (reply.toMessage r.callId) := by
  have hlegible : Handler.Legible reply → (reply.toMessage r.callId).ReadsBack := by
    intro hlegible
    cases reply with
    | ok value => exact (Message.readsBack_ok_iff _).2 (hlegible value rfl)
    | abort message => exact Message.readsBack_abort _ _
  rw [workOn] at h
  cases hop : EditorOperation.table.get? r.operation with
  | none =>
    rw [hop] at h
    cases h
  | some operation =>
    rw [hop] at h
    by_cases hinfo : operation = .connectionInfo
    · subst hinfo
      obtain ⟨implementation, version, hbrought, rfl⟩ :=
        Handler.returns_connectionInfo x reply y h
      by_cases hversion : version.ReadsBack
      · refine .inl ((Message.readsBack_ok_iff _).2 ?_)
        exact Handler.readsBack_description_iff.2 hversion
      · rcases hbrought with rfl | ⟨payload, rfl⟩
        · exact absurd readsBack_nil hversion
        · exact .inr ⟨hop, implementation, payload,
            fun h => hversion ((Link.readsBack_resultOf_iff payload).2 h), rfl⟩
    · exact .inl (hlegible (Handler.returns_handle hinfo r.args x reply y h))

/-- Replies and new levels are read back like everything that was sent before them. -/
theorem handleRequest_sends (site : Site σ) (r : Request) :
    Op.Obeys (Handler.sending fun m => m.ReadsBack ∨ Undescribed site r m)
      (handleRequest site r) := by
  have hsteps : Handler.StepsObey (Handler.sending fun m => m.ReadsBack ∨ Undescribed site r m)
      site := Handler.sending_steps (Handler.telling_readsBack.mono fun _ => .inl)
  intro x
  have hlaw := hsteps.workOn r x
  have hend := handleRequest_concludes site r x
  generalize handleRequest site r x = answer at hend ⊢
  cases hend with
  | replied reply y hwork =>
    rw [hwork] at hlaw
    have hreply := workOn_readsBack hwork
    exact Handler.Sends.trans hlaw ⟨[_], rfl, List.forall_mem_singleton.2 hreply⟩
  | entered report y hwork =>
    rw [hwork] at hlaw
    refine Handler.Sends.trans hlaw ⟨[_, _], List.append_assoc .., ?_⟩
    exact List.forall_mem_cons.2 ⟨.inl (Message.readsBack_debug _),
      List.forall_mem_singleton.2 (.inl (Message.readsBack_debugActivate _))⟩
  | refused error y hwork _ =>
    rw [hwork] at hlaw
    refine Handler.Sends.trans hlaw ⟨[_], rfl, List.forall_mem_singleton.2 (.inl ?_)⟩
    exact Message.readsBack_abort _ _
  | waited hwork =>
    rw [hwork] at hlaw
    exact hlaw

/-- In every run, whatever the evaluator prints and answers, each message is read back from its
text, unless it describes the connection and the value of the evaluator in it came from a text that
cannot be read or that has a float in it which is not read as itself. Such a description is not
read back. -/
theorem messages_read_back (site : Site σ) (payloads : List (List UInt8)) (x : Exchange σ) :
    (∃ messages, (handlePayloads site payloads x).2.sent = x.sent ++ messages ∧
      ∀ m ∈ messages, m.ReadsBack ∨ ∃ r ∈ payloads.filterMap requestIn?, Undescribed site r m) ∧
    ∀ implementation payload callId,
      ((Reply.ok (Handler.description site implementation
        (Link.resultOf payload).1)).toMessage callId).ReadsBack ↔ Link.Legible payload := by
  constructor
  · have hrun : Op.Obeys (Handler.sending fun m => m.ReadsBack ∨
        ∃ r ∈ payloads.filterMap requestIn?, Undescribed site r m)
        (handlePayloads site payloads) := by
      refine obeys_handlePayloads fun r hr y => ?_
      obtain ⟨messages, hsent, hall⟩ := handleRequest_sends site r y
      exact ⟨messages, hsent, fun m hm => (hall m hm).imp_right fun h => ⟨r, hr, h⟩⟩
    exact hrun x
  · intro implementation payload callId
    rw [Message.readsBack_ok_iff, Handler.readsBack_description_iff, Link.readsBack_resultOf_iff]

end

def obscure : Behaviour Unit := .answering []
  [.received (Frame.framed (Utf8.encode "result") ++ Frame.framed (Utf8.encode "#<lisp 1.0>"))]

def obscureExchange : Exchange Unit :=
  ⟨{ Session.start Config.Layer.empty.resolve with link := some (.fresh 4005) }, []⟩

def obscurePayload : List UInt8 := Utf8.encode "(:emacs-rex (swank:connection-info) nil t 1)"

theorem not_legible_obscure : ¬ Link.Legible (Utf8.encode "#<lisp 1.0>") := by
  rintro ⟨value, hread, -⟩
  have hnone : (read (Text.stripColor (Utf8.decodeLossy (Utf8.encode "#<lisp 1.0>")))).toOption =
      none := by decide +kernel
  rw [hread] at hnone
  cases hnone

/-- The description with that version is not read back. -/
theorem description_not_read_back :
    ∃ m ∈ (handlePayloads (.barren obscure) [obscurePayload] obscureExchange).2.sent,
      ¬ m.ReadsBack := by
  have hrequest : requestIn? obscurePayload =
      some ⟨"swank:connection-info", [], none, .truth, 1⟩ := by decide +kernel
  have hreturned : (Handler.connectionInfo (.barren obscure) obscureExchange).1.toOption =
      some (.ok (Handler.description (.barren obscure) "irteusgl"
        (Link.resultOf (Utf8.encode "#<lisp 1.0>")).1)) := by decide +kernel
  have hquiet : (Handler.connectionInfo (.barren obscure) obscureExchange).2.sent = [] := by
    decide +kernel
  cases hinfo : Handler.connectionInfo (.barren obscure) obscureExchange with
  | mk got y =>
    rw [hinfo] at hreturned hquiet
    replace hquiet : y.sent = [] := hquiet
    cases got with
    | error stop => cases hreturned
    | ok reply =>
      cases hreturned
      have hrun := handleRequest_of_reply (r := ⟨"swank:connection-info", [], none, .truth, 1⟩)
        EditorOperation.get?_connectionInfo hinfo
      have hsent : (handlePayloads (.barren obscure) [obscurePayload] obscureExchange).2.sent =
          [(Reply.ok (Handler.description (.barren obscure) "irteusgl"
            (Link.resultOf (Utf8.encode "#<lisp 1.0>")).1)).toMessage 1] := by
        rw [handlePayloads, Op.bind_ok ((handlePayload_of_request hrequest).trans hrun)]
        simp only [handlePayloads, Op.pure_apply, Exchange.tell, hquiet, List.nil_append]
      refine ⟨_, hsent ▸ List.mem_singleton_self _, ?_⟩
      rw [Message.readsBack_ok_iff, Handler.readsBack_description_iff, Link.readsBack_resultOf_iff]
      exact not_legible_obscure

end SlimeServer
