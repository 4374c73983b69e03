import SlimeServer.Proofs.Evaluator.Interleaving
/-!
# Asking for the call stack

After an error the evaluator is asked for its call stack. It prints a dump and the token, which a
fresh splitter cuts off, and sends a reply, which is passed over. Two lines are written for this,
the request and the way back to the outer level, and the frames are those of the dump.
-/
namespace SlimeServer

variable {σ : Type}

/-- Upon an act, an evaluator lives on with its channels open and sends these pieces of output and
these payloads in frames. -/
structure Behaviour.Brings (b : Behaviour σ) (memory : σ) (a : Act) (memory' : σ)
    (pieces payloads : List (List UInt8)) : Prop where
  remembers : (b.react memory a).1 = memory'
  keeps : ∀ m ∈ (b.react memory a).2.moments, m.KeepsOutput ∧ m.KeepsSocket ∧ m.KeepsLines
  pieces_eq : (b.react memory a).2.moments.filterMap Moment.output? = pieces
  bytes_eq : (b.react memory a).2.moments.flatMap Moment.arriving =
    payloads.flatMap Frame.framed
  fits : ∀ payload ∈ payloads, payload.length ≤ Frame.maxPayload

namespace Peer

structure Attends (p : Peer σ) (memory : σ) (pieces payloads : List (List UInt8)) : Prop
    extends p.Sends pieces payloads where
  remembers : p.memory = memory
  hears : p.Hears p.coming

section

variable {p q : Peer σ} {memory memory' : σ} {pieces payloads : List (List UInt8)}

theorem Attends.of_waited {pieces' payloads' : List (List UInt8)}
    (h : p.Attends memory pieces payloads) (hw : p.Waited q) (hs : q.Sends pieces' payloads') :
    q.Attends memory pieces' payloads' :=
  ⟨hs, hw.memory.trans h.remembers, hw.hears h.hears⟩

theorem Attends.elapse (h : p.Attends memory pieces payloads) (count : Nat) :
    (p.elapse count).Attends memory pieces payloads := by
  induction count generalizing p with
  | zero => exact h
  | succ count ih =>
    rw [elapse_add_one]
    refine ih (h.of_waited ?_ h.elapse_one)
    cases hc : p.coming with
    | nil =>
      rw [elapse_nil hc]
      exact p.waited_refl
    | cons m later =>
      have hwaited := p.waited_happen m later
      rw [← elapse_one hc, ← hc] at hwaited
      exact hwaited

theorem Hears.write (b : Behaviour σ) {moments : List Moment} (h : p.Hears moments)
    (text : String) : p.write b .socket text =
      .ok (Peer.act b { p with sent := p.sent ++ [(.socket, text)] } (.line .socket text)) := by
  simp only [Peer.write, Peer.fault?, h.fault]

/-- An act adds what it brings to what is about to come. -/
theorem Attends.act {b : Behaviour σ} {a : Act} {more replies : List (List UInt8)}
    (h : p.Attends memory pieces payloads) (hb : b.Brings memory a memory' more replies) :
    (p.act b a).Attends memory' (pieces ++ more) (payloads ++ replies) := by
  obtain ⟨hremembers, hkeeps, hpieces, hbytes, hfits⟩ := hb
  rw [← h.remembers] at hremembers hkeeps hpieces hbytes
  have hcoming : { p with
      memory := (b.react p.memory a).1
      coming := p.coming ++ (b.react p.memory a).2.moments }.Attends memory' (pieces ++ more)
        (payloads ++ replies) := by
    refine ⟨⟨⟨h.pours.queueOpen, h.pours.alive, ?_, ?_⟩, ⟨h.speaks.socketOpen, ?_, ?_⟩, ?_⟩,
      hremembers, h.hears.fault, ?_⟩
    · exact List.forall_mem_append.2 ⟨h.pours.keeps, fun m hm => (hkeeps m hm).1⟩
    · rw [List.filterMap_append, ← List.append_assoc, h.pours.pieces_eq, hpieces]
    · exact List.forall_mem_append.2 ⟨h.speaks.keeps, fun m hm => (hkeeps m hm).2.1⟩
    · rw [List.flatMap_append, ← List.append_assoc, h.speaks.bytes_eq, hbytes,
        List.flatMap_append]
    · exact List.forall_mem_append.2 ⟨h.fits, hfits⟩
    · exact List.forall_mem_append.2 ⟨h.hears.keeps, fun m hm => (hkeeps m hm).2.2⟩
  exact hcoming.elapse _

theorem Attends.write {b : Behaviour σ} {text : String} {more replies : List (List UInt8)}
    (h : p.Attends memory pieces payloads)
    (hb : b.Brings memory (.line .socket text) memory' more replies) :
    ∃ q, p.write b .socket text = .ok q ∧ q.Attends memory' (pieces ++ more) (payloads ++ replies) ∧
      q.sent = p.sent ++ [(.socket, text)] := by
  have hsent : { p with sent := p.sent ++ [(Channel.socket, text)] }.Attends memory pieces
      payloads :=
    ⟨⟨⟨h.pours.queueOpen, h.pours.alive, h.pours.keeps, h.pours.pieces_eq⟩,
      ⟨h.speaks.socketOpen, h.speaks.keeps, h.speaks.bytes_eq⟩, h.fits⟩, h.remembers,
      ⟨h.hears.fault, h.hears.keeps⟩⟩
  have hwrite := h.hears.write b text
  exact ⟨_, hwrite, hsent.act hb, sent_of_write hwrite⟩

theorem Attends.dropOutput (h : p.Attends memory pieces payloads) :
    ∃ more, more <:+ pieces ∧ p.dropOutput.Attends memory more payloads := by
  refine ⟨p.coming.filterMap Moment.output?, ⟨p.queue, h.pours.pieces_eq⟩, ?_⟩
  exact ⟨⟨⟨h.pours.queueOpen, h.pours.alive, h.pours.keeps, rfl⟩,
    ⟨h.speaks.socketOpen, h.speaks.keeps, h.speaks.bytes_eq⟩, h.fits⟩, h.remembers,
    ⟨h.hears.fault, h.hears.keeps⟩⟩

theorem Attends.dropInbox (h : p.Attends memory pieces []) :
    p.dropInbox.Attends memory pieces [] := by
  obtain ⟨-, harriving⟩ := List.append_eq_nil_iff.1 h.speaks.bytes_eq
  have hopen : (p.socketEnd.map fun _ => SocketEnd.closed) = none := by
    rw [h.speaks.socketOpen]
    rfl
  exact ⟨⟨⟨h.pours.queueOpen, h.pours.alive, h.pours.keeps, h.pours.pieces_eq⟩,
    ⟨hopen, h.speaks.keeps, harriving⟩, h.fits⟩, h.remembers, ⟨h.hears.fault, h.hears.keeps⟩⟩

end

end Peer

namespace Link

section

variable {l : Link σ} {memory : σ} {pieces payloads : List (List UInt8)}

theorem awaitPiece_attends {piece : List UInt8}
    (h : l.peer.Attends memory (piece :: pieces) payloads) :
    ∃ q, awaitPiece l = (.ok piece, { l with peer := q }) ∧ q.Attends memory pieces payloads ∧
      q.sent = l.peer.sent := by
  obtain ⟨q, hawait, hs, hwaited⟩ := awaitPiece_sends h.toSends
  exact ⟨q, hawait, h.of_waited hwaited hs, hwaited.sent⟩

theorem awaitFrame_attends {payload : List UInt8}
    (h : l.peer.Attends memory pieces (payload :: payloads)) :
    ∃ q, awaitFrame l = (.ok payload, { l with peer := q }) ∧ q.Attends memory pieces payloads ∧
      q.sent = l.peer.sent := by
  obtain ⟨q, hawait, hs, hwaited⟩ := awaitFrame_sends h.toSends
  exact ⟨q, hawait, h.of_waited hwaited hs, hwaited.sent⟩

theorem outputToToken_of_piece {s : Splitter} {text : String} {piece : List UInt8} {q : Peer σ}
    (h : awaitPiece l = (.ok piece, { l with peer := q })) :
    outputToToken s text l = if (s.push piece).1.found
      then (.ok (text ++ l.clean (s.push piece).1.text), { l with peer := q })
      else outputToToken (s.push piece).2 (text ++ l.clean (s.push piece).1.text)
        { l with peer := q } := by
  have hpeer : l.peer.awaitPiece l.peer.coming = (.ok piece, q) := by
    rw [awaitPiece] at h
    generalize l.peer.awaitPiece l.peer.coming = answer at h
    obtain ⟨got, peer⟩ := answer
    simp only [Prod.mk.injEq, Link.mk.injEq, and_true] at h
    rw [h.1, h.2]
  rw [outputToToken]
  split
  · rename_i piece' peer h'
    rw [hpeer] at h'
    cases h'
    rfl
  · rename_i stop peer h'
    rw [hpeer] at h'
    cases h'

/-- The text up to the token is what the pieces up to it bring. -/
theorem outputToToken_attends {s : Splitter} {first extra : List (List UInt8)} {last : List UInt8}
    (text : String) (h : l.peer.Attends memory (first ++ last :: extra) payloads)
    (hfirst : ∀ split ∈ (s.pushAll first).1, split.found = false)
    (hlast : ((s.pushAll first).2.push last).1.found = true) :
    ∃ q, outputToToken s text l = (.ok (text ++ String.join (Evaluation.textsOf (Evaluation.shown l
        ((s.pushAll first).1 ++ [((s.pushAll first).2.push last).1])))), { l with peer := q }) ∧
      q.Attends memory extra payloads ∧ q.sent = l.peer.sent := by
  induction first generalizing s text l with
  | nil =>
    obtain ⟨q, hawait, hattends, hsent⟩ := awaitPiece_attends h
    rw [Splitter.pushAll] at hlast
    refine ⟨q, ?_, hattends, hsent⟩
    rw [outputToToken_of_piece hawait, if_pos hlast, Splitter.pushAll, List.nil_append,
      Evaluation.join_textsOf_shown_cons]
    simp [Evaluation.shown, Evaluation.textsOf]
  | cons piece first ih =>
    obtain ⟨q₁, hawait, hattends, hsent₁⟩ := awaitPiece_attends h
    have hfound : (s.push piece).1.found = false := hfirst _ (List.mem_cons_self ..)
    obtain ⟨q, houtput, hq, hsent⟩ := ih (l := { l with peer := q₁ }) (s := (s.push piece).2)
      (text ++ l.clean (s.push piece).1.text) hattends
      (fun split hsplit => hfirst split (List.mem_cons_of_mem _ hsplit)) hlast
    refine ⟨q, ?_, hq, hsent.trans hsent₁⟩
    rw [outputToToken_of_piece hawait, hfound, if_neg Bool.false_ne_true, houtput,
      Splitter.pushAll, List.cons_append, Evaluation.join_textsOf_shown_cons, String.append_assoc]
    rfl

/-- A dump that is followed by the token is read whole. -/
theorem outputToToken_dump {dump : String}
    (h : l.peer.Attends memory pieces payloads)
    (honly : Splitter.OnlyAfter l.token (Utf8.encode dump) [])
    (hcut : pieces.flatten = Utf8.encode dump ++ l.token)
    (hplain : l.tuning.color = true ∨ Text.escapeChar ∉ dump.toList) :
    ∃ q extra, outputToToken (.start l.token) "" l = (.ok dump, { l with peer := q }) ∧
      q.Attends memory extra payloads ∧ q.sent = l.peer.sent := by
  have hpos := List.length_pos_iff.2 honly.1
  have hlength := congrArg List.length hcut
  rw [List.length_append, Utf8.encode] at hlength
  have hcount : 0 < (dump.toList.flatMap Utf8.encodeChar).length + l.token.length := by omega
  have hcome := Nat.le_of_eq hlength.symm
  obtain ⟨first, last, extra, rfl, hlt, hle⟩ := Splitter.exists_completing hcount hcome
  obtain ⟨after, hafter, hfound, -, hlast⟩ := Splitter.pushAll_output (s := .start l.token)
    rfl honly (by rw [hcut, List.append_nil]; rfl) rfl hlt hle
  obtain ⟨q, houtput, hattends, hsent⟩ := outputToToken_attends "" h hfound
    (by rw [hlast])
  have htext : Splitter.textOf (((Splitter.start l.token).pushAll first).1 ++
      [(((Splitter.start l.token).pushAll first).2.push last).1]) = dump.toList := by
    rw [hlast, hafter]
    simp [Splitter.textOf]
  have hjoin := Evaluation.join_textsOf_shown (l := l) (by rwa [htext])
  rw [htext, String.toList_inj] at hjoin
  refine ⟨q, extra, ?_, hattends, hsent⟩
  rw [houtput, hjoin, String.empty_append]

/-- The payloads of what follows a dump: a result or an abort, or an error, whose message is left
unread. -/
inductive Dismissed : List (List UInt8) → Prop
  | reply {payloads : List (List UInt8)} {outcome : Outcome} (h : Reply payloads outcome) :
    Dismissed payloads
  | error {tag : List UInt8} (message : List (List UInt8)) (ht : tagOf tag = .error) :
    Dismissed (tag :: message)

theorem readOutcome_dismissed (h : l.peer.Attends memory pieces payloads)
    (hd : Dismissed payloads) :
    ∃ outcome q more, readOutcome true l = (.ok outcome, { l with peer := q }) ∧
      q.Attends memory pieces more ∧ q.sent = l.peer.sent := by
  cases hd with
  | reply hr =>
    obtain ⟨q, houtcome, hs, hwaited⟩ := readOutcome_reply true hr h.toSends
    exact ⟨_, q, [], houtcome, h.of_waited hwaited hs, hwaited.sent⟩
  | error message ht =>
    obtain ⟨q, hawait, hq, hsent⟩ := awaitFrame_attends h
    refine ⟨.deferred, q, message, ?_, hq, hsent⟩
    rw [readOutcome, Op.bind_ok hawait]
    simp only [ht]
    rfl

theorem readOutcome_error {tag payload : List UInt8} {more : List (List UInt8)}
    (h : l.peer.Attends memory pieces (tag :: payload :: more)) (ht : tagOf tag = .error) :
    ∃ q, readOutcome false l = (.ok (.error (l.clean (messageOf payload))), { l with peer := q }) ∧
      q.Attends memory pieces more ∧ q.sent = l.peer.sent := by
  obtain ⟨q₁, hawait₁, h₁, hsent₁⟩ := awaitFrame_attends h
  obtain ⟨q, hawait, hq, hsent⟩ := awaitFrame_attends (l := { l with peer := q₁ }) h₁
  refine ⟨q, ?_, hq, hsent.trans hsent₁⟩
  rw [readOutcome, Op.bind_ok hawait₁]
  simp only [ht]
  rw [if_neg Bool.false_ne_true, Op.bind_ok hawait]
  rfl

theorem trim_callStackCommand (depth : Nat) :
    Text.trim (callStackCommand depth) = callStackCommand depth := by
  have hcommand : callStackCommand depth =
      "(slime:print-callstack " ++ Nat.repr ((depth + CallStack.padding) % UInt64.size) ++ ")" := rfl
  have hchars : (callStackCommand depth).toList = '(' :: ("slime:print-callstack ".toList ++
      (Nat.repr ((depth + CallStack.padding) % UInt64.size)).toList ++ [')']) := by
    rw [hcommand, String.toList_append, String.toList_append]
    rfl
  have hopening : Text.isBlank '(' = false := by decide
  have hclosing : Text.isBlank ')' = false := by decide
  rw [Text.trim, hchars, Text.trimChars_of_ends _ hopening hclosing, ← hchars,
    String.ofList_toList]

end

end Link

/-- Asked for its call stack, an evaluator sends nothing until the request is written. Then it
prints a dump without the token, and the token, in pieces, and it sends a reply. -/
structure Behaviour.Dumps (b : Behaviour σ) (memory : σ) (depth : Nat) (token : List UInt8)
    (dump : String) (chunks replies : List (List UInt8)) : Prop where
  answers : ∃ m₁ m₂ m₃, b.Brings memory .look m₁ [] [] ∧ b.Brings m₁ .look m₂ [] [] ∧
    b.Brings m₂ (.line .socket (callStackCommand depth)) m₃ chunks replies
  cut : chunks.flatten = Utf8.encode dump ++ token
  free : Splitter.occurrences token (Utf8.encode dump) = 0
  reply : Link.Dismissed replies

namespace Link

variable {b : Behaviour σ} {l : Link σ} {memory : σ} {extra chunks replies : List (List UInt8)}
  {dump : String} {depth port : Nat}

/-- Fetching the call stack brings the frames of the dump, whatever the reply is, and writes two
lines: the request and the way back to the outer level. -/
theorem fetchCallStack_dumps (h : l.peer.Attends memory extra []) (hextra : extra.flatten = [])
    (htoken : l.token = Utf8.encode (sessionToken port))
    (hplain : l.tuning.color = true ∨ Text.escapeChar ∉ dump.toList)
    (hd : b.Dumps memory depth l.token dump chunks replies) :
    ∃ q, fetchCallStack b depth l = (.ok (CallStack.parse dump), { l with peer := q }) ∧
      q.sent = l.peer.sent ++
        [(.socket, callStackCommand depth), (.socket, resetLevelCommand)] := by
  obtain ⟨m₁, m₂, m₃, hlook₁, hlook₂, hline⟩ := hd.answers
  -- What was left over of the output holds no bytes, so it does not matter how much is dropped.
  obtain ⟨left, hleft, h₁⟩ := (h.act hlook₁).dropOutput
  have h₂ := (h₁.act hlook₂).dropInbox
  obtain ⟨p, hwrite, h₃, hsent₃⟩ := h₂.write hline
  have hempty : left.flatten = [] := by
    obtain ⟨before, hbefore⟩ := hleft
    rw [List.append_nil] at hbefore
    rw [← hbefore, List.flatten_append] at hextra
    exact (List.append_eq_nil_iff.1 hextra).2
  have hcut : (left ++ [] ++ chunks).flatten = Utf8.encode dump ++ l.token := by
    rw [List.append_nil, List.flatten_append, hempty, hd.cut, List.nil_append]
  have honly : Splitter.OnlyAfter l.token (Utf8.encode dump) [] := by
    have hfree := hd.free
    rw [htoken] at hfree ⊢
    exact onlyAfter_sessionToken hfree
  obtain ⟨p₄, left₄, houtput, h₄, hsent₄⟩ :=
    outputToToken_dump (l := { l with peer := p }) h₃ honly hcut hplain
  obtain ⟨outcome, p₅, more, houtcome, h₅, hsent₅⟩ :=
    readOutcome_dismissed (l := { l with peer := p₄ }) h₄ hd.reply
  have hreset := h₅.hears.write b resetLevelCommand
  have htrim : Text.trim resetLevelCommand = resetLevelCommand := by decide +kernel
  rw [← trim_callStackCommand] at hwrite
  refine ⟨_, ?_, (Peer.sent_of_write hreset).trans ?_⟩
  · have hdropOutput : dropOutput b l =
        (.ok (), { l with peer := (l.peer.act b .look).dropOutput }) := rfl
    have hdropInbox : dropInbox b { l with peer := (l.peer.act b .look).dropOutput } = (.ok (),
        { l with peer := ((l.peer.act b .look).dropOutput.act b .look).dropInbox }) := rfl
    rw [← htrim] at hreset
    rw [fetchCallStack, Op.bind_ok hdropOutput, Op.bind_ok hdropInbox,
      Op.bind_ok (writeSocket_ok hwrite), Op.bind_ok (Op.get_apply _), Op.bind_ok houtput,
      Op.bind_ok houtcome, Op.bind_ok (writeSocket_ok hreset)]
    rfl
  · have hsent : ((l.peer.act b .look).dropOutput.act b .look).dropInbox.sent = l.peer.sent := by
      simp [Peer.dropOutput, Peer.dropInbox]
    rw [hsent] at hsent₃
    rw [hsent₅, hsent₄, hsent₃, List.append_assoc]
    rfl

theorem raise_dumps (α : Type) (message : String) (h : l.peer.Attends memory extra [])
    (hextra : extra.flatten = []) (htoken : l.token = Utf8.encode (sessionToken port))
    (hplain : l.tuning.color = true ∨ Text.escapeChar ∉ dump.toList)
    (hd : b.Dumps memory l.tuning.callStackDepth l.token dump chunks replies) :
    ∃ q, (raise b message : LinkOp σ α) l =
        (.error (.failed (.raised message (CallStack.parse dump))), { l with peer := q }) ∧
      q.sent = l.peer.sent ++ [(.socket, callStackCommand l.tuning.callStackDepth),
        (.socket, resetLevelCommand)] := by
  obtain ⟨q, hfetch, hsent⟩ := fetchCallStack_dumps h hextra htoken hplain hd
  refine ⟨q, ?_, hsent⟩
  rw [raise, Op.bind_ok (Op.get_apply l), Op.bind_ok hfetch]
  rfl

end Link

namespace Evaluation

variable {b : Behaviour σ} {l : Link σ} {memory : σ} {pieces chunks replies : List (List UInt8)}
  {before tag payload : List UInt8} {dump : String} {port : Nat}

/-- An evaluation that ends in an error hands out texts and fails with the message and the call
stack. Two lines are written for it. -/
theorem rest_raises (h : l.peer.Attends memory pieces [tag, payload])
    (htag : Link.tagOf tag = .error) (htoken : l.token = Utf8.encode (sessionToken port))
    (hcut : pieces.flatten = before ++ l.token)
    (hfree : Splitter.occurrences l.token before = 0)
    (hplain : l.tuning.color = true ∨ Text.escapeChar ∉ dump.toList)
    (hd : b.Dumps memory l.tuning.callStackDepth l.token dump chunks replies) :
    ∃ splits q, (start l false true).rest b l = (shown l splits,
        .error (.failed (.raised (l.clean (Link.messageOf payload)) (CallStack.parse dump))),
        { l with peer := q, state := .errorRaised }) ∧
      q.sent = l.peer.sent ++ [(.socket, callStackCommand l.tuning.callStackDepth),
        (.socket, resetLevelCommand)] := by
  have honly : Splitter.OnlyAfter l.token before [] := by
    rw [htoken] at hfree ⊢
    exact onlyAfter_sessionToken hfree
  -- The token is nowhere else, so one piece completes it, and behind that piece there is nothing.
  obtain ⟨first, last, extra, rfl, hfirst, hlast⟩ :=
    (Splitter.finds_of_occurrences (honly.occurrences_ne_zero hcut)).split
  have hextra := Splitter.flatten_extra_eq_nil honly hcut hfirst hlast
  have hc : l.peer.coming = l.peer.coming ++ [] := (List.append_nil _).symm
  obtain ⟨q₁, left, hleft, hpours, hspeaks, hwaited, hrest⟩ :=
    rest_pieces b (e := start l false true) rfl rfl hc h.pours hfirst
  rw [List.append_nil] at hleft
  have h₁ : q₁.Attends memory (last :: extra) [tag, payload] :=
    h.of_waited hwaited ⟨hleft ▸ hpours, hleft ▸ hspeaks _ h.speaks, h.fits⟩
  obtain ⟨q₂, hawait, h₂, hsent₂⟩ := Link.awaitPiece_attends (l := { l with peer := q₁ }) h₁
  obtain ⟨q₃, houtcome, h₃, hsent₃⟩ := Link.readOutcome_error (l := { l with peer := q₂ }) h₂ htag
  obtain ⟨q, hraise, hsent⟩ := Link.raise_dumps (l := { l with peer := q₃ }) Evaluation
    (l.clean (Link.messageOf payload)) h₃ hextra htoken hplain hd
  refine ⟨((Splitter.start l.token).pushAll first).1, q, ?_, ?_⟩
  · have hsettle : ∀ e : Evaluation, e.deferring = false → e.settleOutcome b { l with peer := q₂ } =
        (.error (.failed (.raised (l.clean (Link.messageOf payload)) (CallStack.parse dump))),
          { l with peer := q }) := by
      intro e he
      rw [settleOutcome, he, Op.bind_ok houtcome]
      exact hraise
    rw [hrest, rest_found b rfl rfl hawait hlast, hsettle _ rfl]
    simp only [List.append_nil]
    rfl
  · rw [hsent, hsent₃, hsent₂, hwaited.sent]

end Evaluation

end SlimeServer
