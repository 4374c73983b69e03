import SlimeServer.Proofs.Editor.Operations
import SlimeServer.Proofs.Editor.Run
import SlimeServer.Proofs.Editor.Table
import SlimeServer.Proofs.Evaluator.Evaluation
/-!
# Evaluations of the editor

An evaluation that succeeds is reported in full: the editor gets the output as it was printed,
wherever the evaluator's two channels were cut, then the result.
-/
namespace SlimeServer

section

variable {σ : Type} {b : Behaviour σ} {l : Link σ}

/-- On a link that can be used, the evaluator takes a form. It prints an output and the token, in
pieces, and sends the frames `result` and the printed result. `moments` are what of this is still
to come once the form is written. -/
structure Link.Answers (b : Behaviour σ) (l : Link σ) (form output printed : String)
    (pieces : List (List UInt8)) (trailing : List UInt8) (q : Peer σ) (moments later : List Moment)
    (tag frame : List UInt8) : Prop where
  usable : l.state ≠ .failed
  takes : l.peer.Takes b form q
  coming : q.coming = moments ++ later
  pours : q.Pours moments pieces
  cut : pieces.flatten = Utf8.encode output ++ l.token ++ trailing
  once : Splitter.occurrences l.token (Utf8.encode output ++ l.token ++ trailing) = 1
  plainOutput : l.tuning.color = true ∨ Text.escapeChar ∉ output.toList
  tagged : Frame.encode (Utf8.encode "result") = .ok tag
  encoded : Frame.encode (Utf8.encode printed) = .ok frame
  speaks : q.Speaks moments (tag ++ frame)
  plainResult : Text.escapeChar ∉ printed.toList

theorem Link.tagOf_result : tagOf (Utf8.encode "result") = .result := by decide +kernel

theorem Link.resultOf_encode {printed : String} (h : Text.escapeChar ∉ printed.toList) :
    (resultOf (Utf8.encode printed)).2 = printed := by
  simp only [resultOf, Utf8.decodeLossy_encode, Text.stripColor_of_not_mem h]
  split <;> rfl

end

namespace Handler

variable {σ : Type}

theorem textMessages_eq (items : List EvalItem) :
    textMessages items = (Evaluation.textsOf items).map Message.writeString := by
  unfold textMessages Evaluation.textsOf
  rw [List.map_filterMap]
  congr 1
  funext item
  cases item <;> rfl

theorem textMessages_result (items : List EvalItem) (value : Sexp) (printed : String) :
    textMessages (items ++ [.result value printed, .complete]) =
      (Evaluation.textsOf items).map Message.writeString := by
  rw [textMessages_eq, Evaluation.textsOf_append]
  simp [Evaluation.textsOf]

theorem printedResult_result (items : List EvalItem) (value : Sexp) (printed : String) :
    printedResult (items ++ [.result value printed, .complete]) = some printed := by
  simp [printedResult]

/-- A form that the evaluator answers: its output is sent as texts, and the result is returned. -/
theorem evaluate_answers {site : Site σ} {x : Exchange σ} {l : Link σ} {q : Peer σ}
    {form output printed : String} {pieces : List (List UInt8)} {trailing tag frame : List UInt8}
    {moments later : List Moment} (hx : x.session.link = some l)
    (h : l.Answers site.behaviour form output printed pieces trailing q moments later tag frame) :
    ∃ texts q', (∀ text ∈ texts, text ≠ "") ∧ String.join texts = output ∧
      evaluate site form x = (.ok (some printed),
        ⟨{ x.session with link := some { l with peer := q', state := .idle } },
          x.sent ++ texts.map Message.writeString⟩) := by
  obtain ⟨htmax, rfl⟩ := Frame.eq_framed_of_encode h.tagged
  obtain ⟨hmax, rfl⟩ := Frame.eq_framed_of_encode h.encoded
  have hs := h.speaks
  rw [← List.append_nil (Frame.framed (Utf8.encode printed))] at hs
  obtain ⟨splits, q', hrest, hjoin⟩ := Evaluation.rest_start_result site.behaviour
    (l := { l with peer := q, state := .evaluating }) false true h.coming h.pours hs
    Link.tagOf_result htmax hmax h.cut (Splitter.onlyAfter_of_occurrences h.once) h.plainOutput
  refine ⟨Evaluation.textsOf (Evaluation.shown { l with peer := q, state := .evaluating } splits),
    q', fun text => Evaluation.ne_empty_of_mem_textsOf_shown, String.toList_inj.1 hjoin, ?_⟩
  have heval : onLink (Link.eval site.behaviour form) x =
      (.ok (.start { l with peer := q, state := .evaluating } false true),
        { x with session := { x.session with
          link := some { l with peer := q, state := .evaluating } } }) := by
    simp only [onLink, onSession, Session.onLink, hx, Link.eval_takes h.usable h.takes]
  rw [evaluate, Op.bind_ok heval, follow_eq rfl hrest]
  simp only [if_true, textMessages_result, printedResult_result,
    Link.resultOf_encode h.plainResult]
  rfl

end Handler

/-- Evaluating a form that the evaluator answers: whatever way the output, the token and the two
frames are cut, the texts sent are the output, and after them comes nothing but the result. -/
theorem handleRequest_evaluation {σ : Type} {site : Site σ} {x : Exchange σ} {l : Link σ}
    {q : Peer σ} {form output printed : String} {pieces : List (List UInt8)}
    {trailing tag frame : List UInt8} {moments later : List Moment}
    (hx : x.session.link = some l)
    (h : l.Answers site.behaviour form output printed pieces trailing q moments later tag frame) :
    ∃ texts q', (∀ text ∈ texts, text ≠ "") ∧ String.join texts = output ∧
      ∀ r : Request, (r.args[0]?.map Sexp.unquote).bind Sexp.designator? = some form →
        (EditorOperation.table.get? r.operation = some .interactiveEval →
          handleRequest site r x = (.ok (),
            ⟨{ x.session with link := some { l with peer := q', state := .idle } },
              x.sent ++ texts.map (fun text => .list [.symbol ":write-string", .string text]) ++
                [.list [.symbol ":return", .list [.symbol ":ok", .string printed],
                  .integer r.callId]]⟩)) ∧
        (EditorOperation.table.get? r.operation = some .listenerEval →
          handleRequest site r x = (.ok (),
            ⟨{ x.session with link := some { l with peer := q', state := .idle } },
              x.sent ++ texts.map (fun text => .list [.symbol ":write-string", .string text]) ++
                [.list [.symbol ":write-string", .string printed, .symbol ":repl-result"],
                  .list [.symbol ":write-string", .string "\n", .symbol ":repl-result"],
                  .list [.symbol ":return", .list [.symbol ":ok", .nil],
                    .integer r.callId]]⟩)) := by
  obtain ⟨texts, q', hne, hjoin, hevaluate⟩ := Handler.evaluate_answers hx h
  refine ⟨texts, q', hne, hjoin, fun r harg => ⟨fun hop => ?_, fun hop => ?_⟩⟩
  · have hhandle : Handler.interactiveEval site r.args x = (.ok (.ok (.string printed)),
        ⟨{ x.session with link := some { l with peer := q', state := .idle } },
          x.sent ++ texts.map Message.writeString⟩) := by
      rw [Handler.interactiveEval, Handler.textArg_some harg, pure_bind, Op.bind_ok hevaluate]
      rfl
    rw [handleRequest_of_reply hop hhandle]
    simp only [Exchange.tell, Message.map_writeString, Reply.toMessage_ok]
  · have hhandle : Handler.listenerEval site r.args x = (.ok (.ok .nil),
        ⟨{ x.session with link := some { l with peer := q', state := .idle } },
          x.sent ++ texts.map Message.writeString ++
            [Message.replResult printed, Message.replResult "\n"]⟩) := by
      rw [Handler.listenerEval, Handler.textArg_some harg, pure_bind, Op.bind_ok hevaluate]
      rfl
    rw [handleRequest_of_reply hop hhandle]
    simp only [Exchange.tell, Message.map_writeString, Message.replResult_eq, Reply.toMessage_ok,
      List.append_assoc, List.cons_append, List.nil_append]

def greetingOutput : List UInt8 :=
  Utf8.encode "grüß\n" ++ Utf8.encode (sessionToken 4005) ++ Utf8.encode "$ "

/-- The evaluator prints it in three pieces, cut inside a letter and inside the token, while its
reply arrives in two. -/
def greeting : Behaviour Unit := .answering
  [.output (greetingOutput.take 3), .received ((Frame.framed (Utf8.encode "result")).take 4),
    .output ((greetingOutput.drop 3).take 9), .tick, .output (greetingOutput.drop 12),
    .received ((Frame.framed (Utf8.encode "result")).drop 4 ++ Frame.framed (Utf8.encode "nil"))] []

def greetingExchange : Exchange Unit :=
  ⟨{ Session.start Config.Layer.empty.resolve with link := some (.fresh 4005) }, []⟩

theorem answers_greeting : (Link.fresh 4005).Answers greeting "(greet)" "grüß\n" "nil"
    [greetingOutput.take 3, (greetingOutput.drop 3).take 9, greetingOutput.drop 12]
    (Utf8.encode "$ ") (Link.eval greeting "(greet)" (.fresh 4005)).2.peer
    (Link.eval greeting "(greet)" (.fresh 4005)).2.peer.coming []
    (Frame.framed (Utf8.encode "result")) (Frame.framed (Utf8.encode "nil")) where
  usable := by decide
  takes := ⟨rfl, rfl⟩
  coming := (List.append_nil _).symm
  pours := ⟨rfl, rfl, by decide, rfl⟩
  cut := by decide +kernel
  once := by decide +kernel
  plainOutput := .inr (by decide +kernel)
  tagged := Frame.encode_eq_ok (by decide)
  encoded := Frame.encode_eq_ok (by decide)
  speaks := ⟨rfl, by decide, by decide +kernel⟩
  plainResult := by decide +kernel

theorem handleRequest_greeting : ∃ texts q, (∀ text ∈ texts, text ≠ "") ∧
    String.join texts = "grüß\n" ∧
    handleRequest (.barren greeting)
      ⟨"swank:interactive-eval", [.string "(greet)"], none, .truth, 7⟩ greetingExchange = (.ok (),
      ⟨{ greetingExchange.session with
          link := some { Link.fresh 4005 with peer := q, state := .idle } },
        [] ++ texts.map (fun text => .list [.symbol ":write-string", .string text]) ++
          [.list [.symbol ":return", .list [.symbol ":ok", .string "nil"], .integer 7]]⟩) ∧
    handleRequest (.barren greeting)
      ⟨"swank-repl:listener-eval", [.string "(greet)"], none, .truth, 8⟩ greetingExchange = (.ok (),
      ⟨{ greetingExchange.session with
          link := some { Link.fresh 4005 with peer := q, state := .idle } },
        [] ++ texts.map (fun text => .list [.symbol ":write-string", .string text]) ++
          [.list [.symbol ":write-string", .string "nil", .symbol ":repl-result"],
            .list [.symbol ":write-string", .string "\n", .symbol ":repl-result"],
            .list [.symbol ":return", .list [.symbol ":ok", .nil], .integer 8]]⟩) := by
  have hlink : greetingExchange.session.link = some (.fresh 4005) := rfl
  have hanswers : (Link.fresh 4005).Answers (Site.barren greeting).behaviour _ _ _ _ _ _ _ _ _ _ :=
    answers_greeting
  obtain ⟨texts, q, hne, hjoin, h⟩ := handleRequest_evaluation hlink hanswers
  exact ⟨texts, q, hne, hjoin, (h _ rfl).1 EditorOperation.get?_interactiveEval,
    (h _ rfl).2 EditorOperation.get?_listenerEval⟩

end SlimeServer
