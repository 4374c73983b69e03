import SlimeServer.Proofs.Editor.Evaluation
import SlimeServer.Proofs.Evaluator.CallStack
import SlimeServer.Proofs.Sexp.Characters
/-!
# From an error to the debugger

A form that the evaluator answers with an error opens one debugger level. The level shows what the
message of the error stands for and the frames of the dump that the evaluator was asked for; the
levels around it stay as they are.
-/
namespace SlimeServer

/-- What the message of an error stands for: a string without its quotes, any other value as it is
printed, and what is not a value as it came. -/
def shownMessage (message : String) : String :=
  match Sexp.read message with
  | .ok (.string text) => text
  | .ok value => value.print
  | .error _ => message

section

variable {σ : Type}

theorem Link.messageOf_encode (message : String) :
    messageOf (Utf8.encode message) = shownMessage message := by
  rw [messageOf, Sexp.readBytes, Utf8.decode?_encode, Utf8.decodeLossy_encode, shownMessage]
  simp only
  cases Sexp.read message with
  | error error => rfl
  | ok value => cases value <;> rfl

theorem escapeChar_not_mem_shownMessage {message : String}
    (h : Text.escapeChar ∉ message.toList) : Text.escapeChar ∉ (shownMessage message).toList := by
  rw [shownMessage]
  cases hread : Sexp.read message with
  | error error => exact h
  | ok value =>
    have hshown : Text.escapeChar ∉ value.displayText.toList := by
      intro hc
      rcases Sexp.mem_of_read hread hc with hc | hc
      · exact h hc
      · revert hc
        decide
    cases value <;> exact hshown

theorem Link.clean_messageOf {l : Link σ} {message : String}
    (h : l.tuning.color = true ∨ Text.escapeChar ∉ message.toList) :
    l.clean (messageOf (Utf8.encode message)) = shownMessage message := by
  rw [messageOf_encode]
  exact Evaluation.clean_of_plain (h.imp_right escapeChar_not_mem_shownMessage)

theorem Link.wanted_eq_iff {depth : Nat} :
    (depth + 4) % UInt64.size = depth + 4 ↔ depth + 4 < UInt64.size := by
  constructor
  · intro h
    rw [← h]
    exact Nat.mod_lt _ (by decide)
  · exact Nat.mod_eq_of_lt

theorem Peer.Takes.sent {b : Behaviour σ} {p q : Peer σ} {form : String} (h : p.Takes b form q) :
    q.sent = p.sent ++ [(.stdin, Text.trim form)] := by
  rw [sent_of_write h.written]
  simp [dropOutput, dropInbox]

end

/-- The form that an operation has the evaluator evaluate. -/
def EditorOperation.form? (operation : EditorOperation) (args : List Sexp) : Option String :=
  let text? := (args[0]?.map Sexp.unquote).bind Sexp.designator?
  match operation with
  | interactiveEval | listenerEval | compileString => text?
  | compileFile => text?.map Handler.loadForm
  | _ => none

def Request.form? (r : Request) : Option String :=
  (EditorOperation.table.get? r.operation).bind fun operation => operation.form? r.args

section

variable {σ : Type}

/-- On a link that can be used, the evaluator takes a form. It prints an output and the token, in
pieces, and answers with an error and a message; then it is asked for its call stack. -/
structure Link.Raises (b : Behaviour σ) (l : Link σ) (form message dump : String) (q : Peer σ)
    (memory : σ) (pieces chunks replies : List (List UInt8)) (before tag : List UInt8)
    (port : Nat) : Prop where
  usable : l.state ≠ .failed
  takes : l.peer.Takes b form q
  attends : q.Attends memory pieces [tag, Utf8.encode message]
  tagged : tagOf tag = .error
  token_eq : l.token = Utf8.encode (sessionToken port)
  cut : pieces.flatten = before ++ l.token
  free : Splitter.occurrences l.token before = 0
  plainMessage : l.tuning.color = true ∨ Text.escapeChar ∉ message.toList
  plainDump : l.tuning.color = true ∨ Text.escapeChar ∉ dump.toList
  dumps : b.Dumps memory l.tuning.callStackDepth l.token dump chunks replies

namespace Handler

variable {site : Site σ} {x y : Exchange σ}

/-- An evaluation that does not return ends the work on its operation. -/
theorem handle_of_evaluate_error {operation : EditorOperation} {args : List Sexp} {form : String}
    {stop : Stop RequestError} (hform : operation.form? args = some form)
    (h : evaluate site form x = (.error stop, y)) :
    operation.handle site args x = (.error stop, y) := by
  cases operation <;> try cases hform
  case interactiveEval =>
    change interactiveEval site args x = _
    rw [interactiveEval, textArg_some hform, pure_bind, Op.bind_error h]
  case listenerEval =>
    change listenerEval site args x = _
    rw [listenerEval, textArg_some hform, pure_bind, Op.bind_error h]
  case compileString =>
    change compileString site args x = _
    rw [compileString, textArg_some hform, pure_bind, Op.bind_error h]
  case compileFile =>
    obtain ⟨path, hpath, rfl⟩ := Option.map_eq_some_iff.1 hform
    change compileFile site args x = _
    rw [compileFile, textArg_some hpath, pure_bind, Op.bind_error h]

theorem evaluate_raises {l : Link σ} {q : Peer σ} {form message dump : String} {memory : σ}
    {pieces chunks replies : List (List UInt8)} {before tag : List UInt8} {port : Nat}
    (hx : x.session.link = some l)
    (h : l.Raises site.behaviour form message dump q memory pieces chunks replies before tag port) :
    ∃ (texts : List String) (l' : Link σ), (∀ text ∈ texts, text ≠ "") ∧ l'.state = .errorRaised ∧
      l'.peer.sent = l.peer.sent ++ [(.stdin, Text.trim form),
        (.socket, callStackCommand l.tuning.callStackDepth), (.socket, resetLevelCommand)] ∧
      evaluate site form x =
        (.error (.failed (.report (.raised (shownMessage message) (CallStack.parse dump)))),
          ⟨{ x.session with link := some l' }, x.sent ++ texts.map Message.writeString⟩) := by
  let l₁ : Link σ := { l with peer := q, state := .evaluating }
  obtain ⟨splits, q', hrest, hsent⟩ := Evaluation.rest_raises (l := l₁) h.attends h.tagged
    h.token_eq h.cut h.free h.plainDump h.dumps
  rw [Link.clean_messageOf (l := l₁) h.plainMessage] at hrest
  refine ⟨Evaluation.textsOf (Evaluation.shown l₁ splits),
    { l₁ with peer := q', state := .errorRaised },
    fun text => Evaluation.ne_empty_of_mem_textsOf_shown, rfl, ?_, ?_⟩
  · rw [hsent, h.takes.sent, List.append_assoc]
    rfl
  · have heval : onLink (Link.eval site.behaviour form) x =
        (.ok (.start l₁ false true),
          { x with session := { x.session with link := some l₁ } }) := by
      simp only [onLink, onSession, Session.onLink, hx, Link.eval_takes h.usable h.takes, l₁]
    rw [evaluate, Op.bind_ok heval, follow_eq rfl hrest, textMessages_eq]
    rfl

end Handler

/-- An error of the evaluator opens one more debugger level, with the id of the request, the message
of the error and the frames of the dump, whatever way the output and the dump are cut and whatever
the reply after the dump is. Two lines go over the socket for it. The depth asked for is four more
than the one that is set, unless this sum does not fit a machine word. -/
theorem handleRequest_raises {site : Site σ} {x : Exchange σ} {l : Link σ} {q : Peer σ}
    {form message dump : String} {memory : σ} {pieces chunks replies : List (List UInt8)}
    {before tag : List UInt8} {port : Nat} (hx : x.session.link = some l)
    (h : l.Raises site.behaviour form message dump q memory pieces chunks replies before tag port) :
    ∃ (texts : List String) (l' : Link σ) (wanted : Nat), (∀ text ∈ texts, text ≠ "") ∧
      l'.state = .errorRaised ∧
      l'.peer.sent = l.peer.sent ++ [(.stdin, Text.trim form),
        (.socket, s!"(slime:print-callstack {wanted})"), (.socket, "(reset *replevel*)")] ∧
      wanted = (l.tuning.callStackDepth + 4) % UInt64.size ∧
      (wanted = l.tuning.callStackDepth + 4 ↔ l.tuning.callStackDepth + 4 < UInt64.size) ∧
      ∀ r : Request, r.form? = some form →
        let number := x.session.debugger.depth + 1
        handleRequest site r x = (.ok (),
          ⟨{ x.session with
              link := some l'
              debugger := ⟨x.session.debugger.levels ++
                [⟨number, r.callId, shownMessage message, CallStack.parse dump, false⟩]⟩ },
            x.sent ++ texts.map (fun text => .list [.symbol ":write-string", .string text]) ++
              [.list [.symbol ":debug", .integer 0, .integer (Int64.ofNat number),
                  .list [.string (shownMessage message), .string "", .nil],
                  .list [.list [.string "QUIT", .string "Quit to the SLIME top level"],
                    .list [.string "CONTINUE",
                      .string "Ignore the error and continue in the same stack level"],
                    .list [.string "RESTART", .string "Restart the evaluator process"]],
                  .list ((CallStack.parse dump).map fun frame =>
                    .list [.integer (Int64.ofNat frame.index), .string frame.description,
                      .list [.symbol ":restartable", .ofBool frame.restartable]]),
                  .list [.integer r.callId]],
                .list [.symbol ":debug-activate", .integer 0, .integer (Int64.ofNat number),
                  .nil]]⟩) := by
  obtain ⟨texts, l', hne, hstate, hsent, hevaluate⟩ := Handler.evaluate_raises hx h
  refine ⟨texts, l', _, hne, hstate, hsent, rfl, Link.wanted_eq_iff, ?_⟩
  intro r hform number
  obtain ⟨operation, hop, hform⟩ := Option.bind_eq_some_iff.1 hform
  rw [handleRequest_of_report hop (Handler.handle_of_evaluate_error hform hevaluate)]
  simp only [Exchange.enterDebugger, Exchange.tell, Message.map_writeString, Message.debug_eq,
    Message.debugActivate_eq, Recovery.allToSexp_eq, StackFrame.listToSexp_eq, List.append_assoc]
  rfl

end

def brokenDump : String := "stack\n\n\n\n0: at (car x)\n1: at (f)\n"

def brokenAnswer : List Moment :=
  [.output (Utf8.encode "hm" ++ (Utf8.encode (sessionToken 4005)).take 3),
    .received (Frame.framed (Utf8.encode "error")), .tick,
    .output ((Utf8.encode (sessionToken 4005)).drop 3),
    .received (Frame.framed (Utf8.encode "\"No value: x\""))]

def brokenReply : List Moment :=
  [.output ((Utf8.encode brokenDump).take 9), .tick,
    .output ((Utf8.encode brokenDump).drop 9 ++ Utf8.encode (sessionToken 4005)),
    .received (Frame.framed (Utf8.encode "error") ++ Frame.framed (Utf8.encode "again"))]

/-- An evaluator that answers every form with an error, and every line on the socket with a dump in
two pieces and another error. -/
def broken : Behaviour Unit := .answering brokenAnswer brokenReply

theorem dumps_broken (depth : Nat) : broken.Dumps () depth (Utf8.encode (sessionToken 4005))
    brokenDump (brokenReply.filterMap Moment.output?)
    [Utf8.encode "error", Utf8.encode "again"] where
  answers := by
    have hlook : broken.Brings () .look () [] [] :=
      ⟨rfl, List.forall_mem_nil _, rfl, rfl, List.forall_mem_nil _⟩
    have hkeeps : ∀ m ∈ brokenReply, m.KeepsOutput ∧ m.KeepsSocket ∧ m.KeepsLines := by
      simp [brokenReply, Moment.KeepsOutput, Moment.KeepsSocket, Moment.KeepsLines]
    have hline : broken.Brings () (.line .socket (callStackCommand depth)) ()
        (brokenReply.filterMap Moment.output?) [Utf8.encode "error", Utf8.encode "again"] :=
      ⟨rfl, hkeeps, rfl, rfl, by decide⟩
    exact ⟨(), (), (), hlook, hlook, hline⟩
  cut := by decide +kernel
  free := by decide +kernel
  reply := .error [Utf8.encode "again"] (by decide +kernel)

def brokenLink (depth : Nat) : Link Unit :=
  { Link.fresh 4005 with tuning := { (Link.fresh 4005).tuning with callStackDepth := depth } }

theorem raises_broken (depth : Nat) : (brokenLink depth).Raises broken "(f)" "\"No value: x\""
    brokenDump (Link.eval broken "(f)" (.fresh 4005)).2.peer ()
    (brokenAnswer.filterMap Moment.output?) (brokenReply.filterMap Moment.output?)
    [Utf8.encode "error", Utf8.encode "again"] (Utf8.encode "hm") (Utf8.encode "error") 4005 where
  usable := by simp [brokenLink, Link.fresh, Link.connected]
  takes := ⟨rfl, rfl⟩
  attends := by
    have hlines : ∀ m ∈ brokenAnswer, m.KeepsLines := by
      simp [brokenAnswer, Moment.KeepsLines]
    exact ⟨⟨⟨rfl, rfl, by decide, rfl⟩, ⟨rfl, by decide, rfl⟩, by decide⟩, rfl, ⟨rfl, hlines⟩⟩
  tagged := by decide +kernel
  token_eq := rfl
  cut := by
    change (brokenAnswer.filterMap Moment.output?).flatten =
      Utf8.encode "hm" ++ Utf8.encode (sessionToken 4005)
    decide +kernel
  free := by
    change Splitter.occurrences (Utf8.encode (sessionToken 4005)) (Utf8.encode "hm") = 0
    decide +kernel
  plainMessage := .inr (by decide +kernel)
  plainDump := .inr (by decide +kernel)
  dumps := dumps_broken depth

def brokenExchange (depth : Nat) : Exchange Unit :=
  ⟨{ Session.start Config.Layer.empty.resolve with
      link := some (brokenLink depth), debugger := ⟨[⟨1, 6, "End of file", [], false⟩]⟩ }, []⟩

theorem handleRequest_raises_broken :
    ∃ (texts : List String) (l' : Link Unit), (∀ text ∈ texts, text ≠ "") ∧
      l'.state = .errorRaised ∧
      l'.peer.sent = [(.stdin, "(f)"), (.socket, "(slime:print-callstack 14)"),
        (.socket, "(reset *replevel*)")] ∧
      handleRequest (.barren broken) ⟨"swank-repl:listener-eval", [.string "(f)"], none, .truth, 7⟩
        (brokenExchange 10) = (.ok (),
          ⟨{ (brokenExchange 10).session with
              link := some l'
              debugger := ⟨[⟨1, 6, "End of file", [], false⟩, ⟨2, 7, "No value: x",
                [⟨0, "(car x)", false⟩, ⟨1, "(f)", false⟩], false⟩]⟩ },
            [] ++ texts.map (fun text => .list [.symbol ":write-string", .string text]) ++
              [.list [.symbol ":debug", .integer 0, .integer 2,
                  .list [.string "No value: x", .string "", .nil],
                  .list [.list [.string "QUIT", .string "Quit to the SLIME top level"],
                    .list [.string "CONTINUE",
                      .string "Ignore the error and continue in the same stack level"],
                    .list [.string "RESTART", .string "Restart the evaluator process"]],
                  .list [
                    .list [.integer 0, .string "(car x)", .list [.symbol ":restartable", .nil]],
                    .list [.integer 1, .string "(f)", .list [.symbol ":restartable", .nil]]],
                  .list [.integer 7]],
                .list [.symbol ":debug-activate", .integer 0, .integer 2, .nil]]⟩) := by
  have hlink : (brokenExchange 10).session.link = some (brokenLink 10) := rfl
  have hraises : (brokenLink 10).Raises (Site.barren broken).behaviour _ _ _ _ _ _ _ _ _ _ _ :=
    raises_broken 10
  have hshown : shownMessage "\"No value: x\"" = "No value: x" := by decide +kernel
  have hframes : CallStack.parse brokenDump = [⟨0, "(car x)", false⟩, ⟨1, "(f)", false⟩] := by
    decide +kernel
  obtain ⟨texts, l', wanted, hne, hstate, hsent, hwanted, -, h⟩ :=
    handleRequest_raises hlink hraises
  have htrim : Text.trim "(f)" = "(f)" := by decide +kernel
  have hfourteen : wanted = 14 := hwanted
  rw [htrim, hfourteen] at hsent
  rw [hshown, hframes] at h
  exact ⟨texts, l', hne, hstate, hsent,
    h _ (Option.bind_eq_some_iff.2 ⟨_, EditorOperation.get?_listenerEval, rfl⟩)⟩

theorem evaluates_broken (depth : Nat) :
    ∃ y l', handleRequest (.barren broken)
        ⟨"swank:interactive-eval", [.string "(f)"], none, .truth, 7⟩ (brokenExchange depth) =
          (.ok (), y) ∧
      y.session.link = some l' ∧
      l'.peer.sent = [(.stdin, Text.trim "(f)"), (.socket, callStackCommand depth),
        (.socket, resetLevelCommand)] := by
  have hraises : (brokenLink depth).Raises (Site.barren broken).behaviour _ _ _ _ _ _ _ _ _ _ _ :=
    raises_broken depth
  have hlink : (brokenExchange depth).session.link = some (brokenLink depth) := rfl
  obtain ⟨texts, l', -, -, hsent, hevaluate⟩ := Handler.evaluate_raises hlink hraises
  have hform : EditorOperation.interactiveEval.form? [.string "(f)"] = some "(f)" := rfl
  have hhandle := Handler.handle_of_evaluate_error hform hevaluate
  exact ⟨_, l', handleRequest_of_report (r := ⟨_, [.string "(f)"], none, .truth, 7⟩)
    EditorOperation.get?_interactiveEval hhandle, rfl, hsent⟩

/-- The greatest depths run out of the machine word: the evaluator is asked for no calls at all. -/
theorem callStackDepth_wraps :
    let depth := 18446744073709551612
    (∃ q memory pieces chunks replies before tag, (brokenLink depth).Raises broken "(f)"
      "\"No value: x\"" brokenDump q memory pieces chunks replies before tag 4005) ∧
    ∃ y l', handleRequest (.barren broken)
        ⟨"swank:interactive-eval", [.string "(f)"], none, .truth, 7⟩ (brokenExchange depth) =
          (.ok (), y) ∧
      y.session.link = some l' ∧
      l'.peer.sent = [(.stdin, "(f)"), (.socket, "(slime:print-callstack 0)"),
        (.socket, "(reset *replevel*)")] ∧
      (.socket, s!"(slime:print-callstack {depth + 4})") ∉ l'.peer.sent := by
  intro depth
  obtain ⟨y, l', hrun, hlink, hsent⟩ := evaluates_broken depth
  have hlines : l'.peer.sent = [(.stdin, "(f)"), (.socket, "(slime:print-callstack 0)"),
      (.socket, "(reset *replevel*)")] := by
    rw [hsent]
    decide +kernel
  refine ⟨⟨_, _, _, _, _, _, _, raises_broken depth⟩, y, l', hrun, hlink, hlines, ?_⟩
  rw [hlines]
  decide +kernel

end SlimeServer
