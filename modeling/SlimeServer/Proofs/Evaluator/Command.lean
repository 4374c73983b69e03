import SlimeServer.Proofs.Evaluator.Evaluation
import SlimeServer.Proofs.Evaluator.Failed
import SlimeServer.Proofs.Evaluator.Leftovers
import SlimeServer.Proofs.Evaluator.Socket
/-!
# What a command comes to

A command of the bridge is written on the socket, and what the evaluator sends on the socket from
then on decides what it comes to: the first frame names how the command ended, and a second frame
holds the value or the message. Output plays no part in it.
-/
namespace SlimeServer

variable {σ : Type}

/-- The payload is read as a symbol or a string that is this name, in any case of its letters. -/
def Names (payload : List UInt8) (name : String) : Prop :=
  ∃ text, (Sexp.readBytes payload = .ok (.symbol text) ∨
    Sexp.readBytes payload = .ok (.string text)) ∧ Text.sameIgnoringCase text name = true

/-- The value that a payload holds is read without colour escapes. What cannot be read is the name
of a symbol. -/
inductive Holds (payload : List UInt8) : Sexp → Prop
  | value {value : Sexp}
    (h : Sexp.read (Text.stripColor (Utf8.decodeLossy payload)) = .ok value) : Holds payload value
  | text {error : ReadError}
    (h : Sexp.read (Text.stripColor (Utf8.decodeLossy payload)) = .error error) :
    Holds payload (.symbol (Text.stripColor (Utf8.decodeLossy payload)))

/-- The message that a payload holds is the text that is shown of its value. What cannot be read is
taken as it is. -/
inductive Says (payload : List UInt8) : String → Prop
  | value {value : Sexp} (h : Sexp.readBytes payload = .ok value) : Says payload value.displayText
  | text {error : ReadError} (h : Sexp.readBytes payload = .error error) :
    Says payload (Utf8.decodeLossy payload)

theorem Text.not_sameIgnoringCase {a b c : String} (h : sameIgnoringCase a b = true)
    (hne : sameIgnoringCase b c = false) : ¬ sameIgnoringCase a c = true := by
  intro h'
  rw [sameIgnoringCase, beq_iff_eq] at h h'
  rw [sameIgnoringCase, beq_eq_false_iff_ne] at hne
  exact hne (h.symm.trans h')

namespace Link

variable {payload : List UInt8}

theorem holds_iff {value : Sexp} : Holds payload value ↔ (resultOf payload).1 = value := by
  rw [resultOf]
  cases hread : Sexp.read (Text.stripColor (Utf8.decodeLossy payload)) with
  | ok read =>
    refine ⟨fun h => ?_, fun h => h ▸ .value hread⟩
    cases h with
    | value h => exact Except.ok.inj (hread.symm.trans h)
    | text h => cases hread.symm.trans h
  | error error =>
    refine ⟨fun h => ?_, fun h => h ▸ .text hread⟩
    cases h with
    | value h => cases hread.symm.trans h
    | text h => rfl

theorem says_iff {message : String} : Says payload message ↔ messageOf payload = message := by
  rw [messageOf]
  cases hread : Sexp.readBytes payload with
  | ok read =>
    refine ⟨fun h => ?_, fun h => h ▸ .value hread⟩
    cases h with
    | value h => rw [Except.ok.inj (hread.symm.trans h)]
    | text h => cases hread.symm.trans h
  | error error =>
    refine ⟨fun h => ?_, fun h => h ▸ .text hread⟩
    cases h with
    | value h => cases hread.symm.trans h
    | text h => rfl

theorem tagOf_of_names {name : String} (h : Names payload name) : ∃ text,
    Text.sameIgnoringCase text name = true ∧ tagOf payload =
      if Text.sameIgnoringCase text "result" then .result
      else if Text.sameIgnoringCase text "error" then .error
      else if Text.sameIgnoringCase text "abort" then .abort else .unknown := by
  obtain ⟨text, hread | hread, hsame⟩ := h <;> exact ⟨text, hsame, by rw [tagOf, hread]; rfl⟩

theorem tagOf_names_result (h : Names payload "result") : tagOf payload = .result := by
  obtain ⟨text, hsame, htag⟩ := tagOf_of_names h
  rw [htag, if_pos hsame]

theorem tagOf_names_error (h : Names payload "error") : tagOf payload = .error := by
  obtain ⟨text, hsame, htag⟩ := tagOf_of_names h
  have hresult := Text.not_sameIgnoringCase (c := "result") hsame (by decide +kernel)
  rw [htag, if_neg hresult, if_pos hsame]

theorem tagOf_names_abort (h : Names payload "abort") : tagOf payload = .abort := by
  obtain ⟨text, hsame, htag⟩ := tagOf_of_names h
  have hresult := Text.not_sameIgnoringCase (c := "result") hsame (by decide +kernel)
  have herror := Text.not_sameIgnoringCase (c := "error") hsame (by decide +kernel)
  rw [htag, if_neg hresult, if_neg herror, if_pos hsame]

theorem tagOf_unknown (h : ∀ name ∈ ["result", "error", "abort"], ¬ Names payload name) :
    tagOf payload = .unknown := by
  have hempty : ∀ name ∈ ["result", "error", "abort"],
      ¬ Text.sameIgnoringCase "" name = true := by
    decide +kernel
  rw [tagOf]
  cases hread : Sexp.readBytes payload with
  | error error => rfl
  | ok value =>
    have hnone : ∀ name ∈ ["result", "error", "abort"],
        ¬ Text.sameIgnoringCase (value.designator?.getD "") name = true := by
      intro name hname hsame
      cases value with
      | symbol text => exact h name hname ⟨text, .inl hread, hsame⟩
      | string text => exact h name hname ⟨text, .inr hread, hsame⟩
      | _ => exact hempty name hname hsame
    simp only
    rw [if_neg (hnone _ (by simp)), if_neg (hnone _ (by simp)), if_neg (hnone _ (by simp))]

end Link

inductive Conclusion where
  | value (value : Sexp)
  | complaint (message : String)
  | broken (report : Report)

/-- What is decided by the stream behind a command, which is ended like that or still open. -/
inductive Decides (color : Bool) (bytes : List UInt8) (how : Option SocketEnd) :
    Conclusion → Prop
  | result {tag payload rest behind : List UInt8} {value : Sexp}
    (htag : StartsWith bytes how (.ok (tag, rest))) (hname : Names tag "result")
    (hpayload : StartsWith rest how (.ok (payload, behind))) (hvalue : Holds payload value) :
    Decides color bytes how (.value value)
  | abort {tag rest : List UInt8} (htag : StartsWith bytes how (.ok (tag, rest)))
    (hname : Names tag "abort") : Decides color bytes how (.value .nil)
  | error {tag payload rest behind : List UInt8} {message : String}
    (htag : StartsWith bytes how (.ok (tag, rest))) (hname : Names tag "error")
    (hpayload : StartsWith rest how (.ok (payload, behind))) (hmessage : Says payload message) :
    Decides color bytes how (.complaint (if color then message else Text.stripColor message))
  | unknown {tag rest : List UInt8} (htag : StartsWith bytes how (.ok (tag, rest)))
    (hname : ∀ name ∈ ["result", "error", "abort"], ¬ Names tag name) :
    Decides color bytes how (.broken
      (.desynchronized ("Unhandled socket response type: " ++ Utf8.decodeLossy tag)))
  | noTag {report : Report} (htag : StartsWith bytes how (.error report)) :
    Decides color bytes how (.broken report)
  | noPayload {tag rest : List UInt8} {report : Report}
    (htag : StartsWith bytes how (.ok (tag, rest)))
    (hname : Names tag "result" ∨ Names tag "error")
    (hpayload : StartsWith rest how (.error report)) : Decides color bytes how (.broken report)

section

variable {color : Bool} {bytes : List UInt8} {how : Option SocketEnd}

/-- A stream that ends decides what the command comes to. -/
theorem exists_decides (color : Bool) (bytes : List UInt8) (hend : how.isSome = true) :
    ∃ conclusion, Decides color bytes how conclusion := by
  obtain ⟨first, hfirst⟩ := exists_startsWith bytes hend
  rcases first with report | ⟨tag, rest⟩
  · exact ⟨_, .noTag hfirst⟩
  obtain ⟨second, hsecond⟩ := exists_startsWith rest hend
  by_cases hresult : Names tag "result"
  · rcases second with report | ⟨payload, behind⟩
    · exact ⟨_, .noPayload hfirst (.inl hresult) hsecond⟩
    · exact ⟨_, .result hfirst hresult hsecond (Link.holds_iff.2 rfl)⟩
  by_cases herror : Names tag "error"
  · rcases second with report | ⟨payload, behind⟩
    · exact ⟨_, .noPayload hfirst (.inr herror) hsecond⟩
    · exact ⟨_, .error hfirst herror hsecond (Link.says_iff.2 rfl)⟩
  by_cases habort : Names tag "abort"
  · exact ⟨_, .abort hfirst habort⟩
  · refine ⟨_, .unknown hfirst fun name hname => ?_⟩
    rcases List.mem_cons.1 hname with rfl | hname
    · exact hresult
    rcases List.mem_cons.1 hname with rfl | hname
    · exact herror
    · rwa [List.mem_singleton.1 hname]

theorem Decides.fatal {report : Report} (h : Decides color bytes how (.broken report)) :
    report.fatal = true := by
  cases h with
  | unknown => rfl
  | noTag htag => exact fatal_of_startsWith htag
  | noPayload _ _ hpayload => exact fatal_of_startsWith hpayload

end

namespace Link

/-- A command is written to a link that can be used: a process that is found alive takes it on its
socket, once the bytes left over there have been dropped. -/
structure Commands (b : Behaviour σ) (l : Link σ) (command : String) (q : Peer σ) : Prop where
  usable : l.state ≠ .failed
  alive : (l.peer.act b .look).loss? = none
  written : ((l.peer.act b .look).act b .look).dropInbox.write b .socket (Text.trim command) =
    .ok q

variable {b : Behaviour σ} {l : Link σ} {command : String} {q : Peer σ} {bytes : List UInt8}
  {how : Option SocketEnd}

theorem Commands.sent (h : l.Commands b command q) :
    q.sent = l.peer.sent ++ [(.socket, Text.trim command)] := by
  rw [Peer.sent_of_write h.written]
  simp [Peer.dropInbox]

def respond (b : Behaviour σ) : Outcome → LinkOp σ Sexp
  | .result value _ => pure value
  | .abort | .deferred => pure .nil
  | .error message => raise b message

theorem execute_of_commands (h : l.Commands b command q) :
    execute b command l =
      noting (readOutcome false >>= respond b) { l with peer := q } := by
  let l₁ : Link σ := { l with peer := ((l.peer.act b .look).act b .look).dropInbox }
  have hready : execute b command l =
      noting (writeSocket b command >>= fun _ => readOutcome false >>= respond b) l₁ := by
    rw [execute, Op.bind_ok (ensureUsable_ok h.usable h.alive)]
    rfl
  have hwrite : writeSocket b command l₁ = (.ok (), { l with peer := q }) :=
    writeSocket_ok h.written
  rw [hready, noting, noting, Op.bind_ok hwrite]

/-- The outcome that is read is the one that the stream decides. -/
theorem readOutcome_decides {conclusion : Conclusion} (h : l.peer.Streams bytes how)
    (hc : Decides l.tuning.color bytes how conclusion) :
    ∃ q : Peer σ, l.peer.Waited q ∧
      match conclusion with
      | .value value => ∃ outcome, readOutcome false l = (.ok outcome, { l with peer := q }) ∧
          respond b outcome = pure value
      | .complaint message => readOutcome false l = (.ok (.error message), { l with peer := q })
      | .broken report =>
        readOutcome false l = (.error (.failed report), { l with peer := q }) := by
  cases hc with
  | @result tag payload rest behind value htag hname hpayload hvalue =>
    obtain ⟨q₁, hwaited₁, hawait₁, hs₁⟩ := awaitFrame_streams h htag
    obtain ⟨q, hwaited, hawait, -⟩ := awaitFrame_streams (l := { l with peer := q₁ }) hs₁ hpayload
    refine ⟨q, hwaited₁.trans hwaited, .result (resultOf payload).1 (resultOf payload).2, ?_,
      congrArg pure (holds_iff.1 hvalue)⟩
    rw [readOutcome, Op.bind_ok hawait₁]
    simp only [tagOf_names_result hname]
    rw [Op.bind_ok hawait]
    rfl
  | abort htag hname =>
    obtain ⟨q, hwaited, hawait, -⟩ := awaitFrame_streams h htag
    refine ⟨q, hwaited, .abort, ?_, rfl⟩
    rw [readOutcome, Op.bind_ok hawait]
    simp only [tagOf_names_abort hname]
    rfl
  | error htag hname hpayload hmessage =>
    obtain ⟨q₁, hwaited₁, hawait₁, hs₁⟩ := awaitFrame_streams h htag
    obtain ⟨q, hwaited, hawait, -⟩ := awaitFrame_streams (l := { l with peer := q₁ }) hs₁ hpayload
    refine ⟨q, hwaited₁.trans hwaited, ?_⟩
    rw [readOutcome, Op.bind_ok hawait₁]
    simp only [tagOf_names_error hname]
    rw [if_neg Bool.false_ne_true, Op.bind_ok hawait, ← says_iff.1 hmessage]
    rfl
  | unknown htag hname =>
    obtain ⟨q, hwaited, hawait, -⟩ := awaitFrame_streams h htag
    refine ⟨q, hwaited, ?_⟩
    rw [readOutcome, Op.bind_ok hawait]
    simp only [tagOf_unknown hname]
    rfl
  | noTag htag =>
    obtain ⟨q, hwaited, hawait⟩ := awaitFrame_streams h htag
    exact ⟨q, hwaited, Op.bind_error hawait⟩
  | noPayload htag hname hpayload =>
    obtain ⟨q₁, hwaited₁, hawait₁, hs₁⟩ := awaitFrame_streams h htag
    obtain ⟨q, hwaited, hawait⟩ := awaitFrame_streams (l := { l with peer := q₁ }) hs₁ hpayload
    refine ⟨q, hwaited₁.trans hwaited, ?_⟩
    rw [readOutcome, Op.bind_ok hawait₁]
    rcases hname with hname | hname
    · simp only [tagOf_names_result hname]
      rw [Op.bind_error hawait]
    · simp only [tagOf_names_error hname]
      rw [if_neg Bool.false_ne_true, Op.bind_error hawait]

/-- How a command ends for what the stream behind it decides. Its frames have been read, which has
left the link with the evaluator `q`. -/
inductive Ends (b : Behaviour σ) (l : Link σ) (q : Peer σ) :
    Conclusion → Except (Stop Report) Sexp × Link σ → Prop
  | value (value : Sexp) : Ends b l q (.value value) (.ok value, { l with peer := q })
  | broken {report : Report} (hfatal : report.fatal = true) : Ends b l q (.broken report)
    (.error (.failed report), { l with peer := q, state := .failed })
  /-- The call stack is fetched once. -/
  | raised {message : String} {frames : List StackFrame} {l' : Link σ}
    (h : fetchCallStack b l.tuning.callStackDepth { l with peer := q } = (.ok frames, l')) :
    Ends b l q (.complaint message)
      (.error (.failed (.raised message frames)), { l' with state := .errorRaised })
  | unfetched {message : String} {report : Report} {l' : Link σ} (hfatal : report.fatal = true)
    (h : fetchCallStack b l.tuning.callStackDepth { l with peer := q } =
      (.error (.failed report), l')) :
    Ends b l q (.complaint message) (.error (.failed report), { l' with state := .failed })
  | waiting {message : String} {l' : Link σ}
    (h : fetchCallStack b l.tuning.callStackDepth { l with peer := q } = (.error .stalled, l')) :
    Ends b l q (.complaint message) (.error .stalled, l')

theorem noting_failed {α : Type} {op : LinkOp σ α} {report : Report} {l' : Link σ}
    (h : op l = (.error (.failed report), l')) :
    noting op l = (.error (.failed report), { l' with state := stateAfter report }) := by
  rw [noting, h]
  rfl

/-- An error ends a command with the call stack, or as the attempt to fetch it ends. -/
theorem ends_raise (message : String) :
    Ends b l q (.complaint message) (noting (raise b message) { l with peer := q }) := by
  have hraise : raise b message { l with peer := q } =
      (fetchCallStack b l.tuning.callStackDepth >>= fun frames =>
        Op.fail (.raised message frames) : LinkOp σ Sexp) { l with peer := q } := rfl
  cases hfetch : fetchCallStack b l.tuning.callStackDepth { l with peer := q } with
  | mk got l' =>
    cases got with
    | ok frames =>
      rw [Op.bind_ok hfetch] at hraise
      rw [noting_failed hraise]
      exact .raised hfetch
    | error stop =>
      rw [Op.bind_error hfetch] at hraise
      cases stop with
      | failed report =>
        have hfatal : report.fatal = true := losing_fetchCallStack _ _ _ _ hfetch trivial
        have hstate : stateAfter report = .failed := stateAfter_eq_failed_iff.2 hfatal
        rw [noting_failed hraise, hstate]
        exact .unfetched hfatal hfetch
      | stalled =>
        rw [noting, hraise]
        exact .waiting hfetch

theorem execute_decides {conclusion : Conclusion} (h : l.Commands b command q)
    (hs : q.Streams bytes how) (hc : Decides l.tuning.color bytes how conclusion) :
    ∃ q' : Peer σ, q'.sent = l.peer.sent ++ [(.socket, Text.trim command)] ∧
      Ends b l q' conclusion (execute b command l) := by
  obtain ⟨q', hwaited, hread⟩ := readOutcome_decides (l := { l with peer := q }) hs hc
  refine ⟨q', hwaited.sent.trans h.sent, ?_⟩
  rw [execute_of_commands h]
  cases conclusion with
  | value value =>
    obtain ⟨outcome, hread, hrespond⟩ := hread
    have hvalue : (readOutcome false >>= respond b) { l with peer := q } =
        (.ok value, { l with peer := q' }) := by
      rw [Op.bind_ok hread, hrespond]
      rfl
    rw [noting_ok hvalue]
    exact .value value
  | complaint message =>
    rw [noting, Op.bind_ok hread]
    exact ends_raise message
  | broken report =>
    have hstate : stateAfter report = .failed := stateAfter_eq_failed_iff.2 hc.fatal
    rw [noting_failed (Op.bind_error hread), hstate]
    exact .broken hc.fatal

theorem execute_holding (b : Behaviour σ) (command : String) (l : Link σ)
    (queue : List (List UInt8)) (inbox : List UInt8) :
    (execute b command (l.holding queue inbox)).1 = (execute b command l).1 ∧
      (execute b command (l.holding queue inbox)).2.state = (execute b command l).2.state := by
  have hblind (l : Link σ) := (blind_execute (d := .all) b command).forget l
  obtain ⟨hanswer, hlink⟩ := hblind l
  obtain ⟨hanswer', hlink'⟩ := hblind (l.holding queue inbox)
  have hsame : (l.holding queue inbox).without .all = l.without .all := rfl
  rw [hsame] at hanswer' hlink'
  exact ⟨hanswer'.trans hanswer.symm, (seen_of_without (hlink'.trans hlink.symm)).2⟩

/-- Where a command is written to a living evaluator, the stream that comes on the socket from then
on decides what it comes to, however it is cut and whatever is printed or happens meanwhile. A
stream that ends always decides it, and one that is still open does so once it holds the frames. The
output that is queued does not matter. -/
theorem execute_decided (h : l.Commands b command q) (hs : q.Streams bytes how) :
    (how.isSome = true → ∃ conclusion, Decides l.tuning.color bytes how conclusion) ∧
    (∀ conclusion, Decides l.tuning.color bytes how conclusion →
      ∃ q' : Peer σ, q'.sent = l.peer.sent ++ [(.socket, Text.trim command)] ∧
        Ends b l q' conclusion (execute b command l)) ∧
    ∀ queue, (execute b command (l.holding queue l.peer.inbox)).1 = (execute b command l).1 ∧
      (execute b command (l.holding queue l.peer.inbox)).2.state = (execute b command l).2.state :=
  ⟨exists_decides l.tuning.color bytes, fun _ => execute_decides h hs,
    fun queue => execute_holding b command l queue l.peer.inbox⟩

def pairFrames : List UInt8 :=
  Frame.framed (Utf8.encode "Result") ++ Frame.framed (Utf8.encode "\x1b[31m(1 2)\x1b[0m")

/-- The frames come in two pieces, with output between them; then the socket is closed and the
process ends. -/
def pairMoments : List Moment :=
  [.received (pairFrames.take 4), .output (Utf8.encode "hm"), .tick, .received (pairFrames.drop 4),
    .socketEnds .closed, .tick, .exits (some 0) none]

def pairPeer : Peer Unit :=
  { Peer.start () pairMoments with sent := [(.socket, "(pair)")] }

theorem execute_decided_pair :
    (fresh 4005).Commands (.answering [] pairMoments) "(pair)" pairPeer ∧
    pairPeer.Streams pairFrames (some .closed) ∧
    (execute (.answering [] pairMoments) "(pair)" (fresh 4005)).1 =
      .ok (.list [.integer 1, .integer 2]) ∧
    (execute (.answering [] pairMoments) "(pair)" (fresh 4005)).2.state = .idle := by
  have hcommands : (fresh 4005).Commands (.answering [] pairMoments) "(pair)" pairPeer :=
    ⟨by decide, rfl, by rfl⟩
  have hstreams : pairPeer.Streams pairFrames (some .closed) :=
    ⟨pairMoments.take 5, pairMoments.drop 5, rfl, rfl, by
      simp [pairMoments, Moment.KeepsProcess], by decide +kernel, rfl⟩
  have hdecides : Decides (fresh 4005).tuning.color pairFrames (some .closed)
      (.value (.list [.integer 1, .integer 2])) := by
    have htag : Frame.Begins pairFrames _ (Utf8.encode "Result")
        (Frame.framed (Utf8.encode "\x1b[31m(1 2)\x1b[0m")) :=
      Frame.begins_framed (by decide) _
    have hpayload : Frame.Begins (Frame.framed (Utf8.encode "\x1b[31m(1 2)\x1b[0m") ++ []) _
        (Utf8.encode "\x1b[31m(1 2)\x1b[0m") [] := Frame.begins_framed (by decide) _
    rw [List.append_nil] at hpayload
    have hname : Names (Utf8.encode "Result") "result" :=
      ⟨"Result", .inl (by decide +kernel), by decide +kernel⟩
    exact .result (startsWith_of_begins htag _) hname (startsWith_of_begins hpayload _)
      (.value (by decide +kernel))
  obtain ⟨-, hends, -⟩ := execute_decided hcommands hstreams
  obtain ⟨q, -, hq⟩ := hends _ hdecides
  refine ⟨hcommands, hstreams, ?_⟩
  generalize execute (.answering [] pairMoments) "(pair)" (fresh 4005) = answer at hq ⊢
  cases hq
  exact ⟨rfl, rfl⟩

end Link
end SlimeServer
