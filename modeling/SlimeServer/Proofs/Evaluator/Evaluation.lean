import SlimeServer.Evaluator.Evaluation
import SlimeServer.Proofs.Evaluator.Lines
import SlimeServer.Proofs.Evaluator.Splitter
import SlimeServer.Proofs.Evaluator.Supply
/-!
# Following an evaluation

What following an evaluation hands out is settled by the pieces of output and the bytes on the
socket: first the texts of the pieces before the one that completes the token, then whatever that
piece and the outcome after it bring.
-/
namespace SlimeServer

namespace Evaluation

variable {σ : Type} (b : Behaviour σ)

section

variable {b} {e e' : Evaluation} {l l' : Link σ}

theorem next_queued {item : EvalItem} {rest : List EvalItem} (h : e.queued = item :: rest) :
    e.next b l = (.item item, { e with queued := rest }, l) := by
  rw [next]
  split
  · rename_i h'
    rw [h] at h'
    cases h'
    rfl
  · rename_i h'
    rw [h] at h'
    cases h'

theorem next_finished (hq : e.queued = []) (hf : e.finished = true) :
    e.next b l = (.ended, e, l) := by
  rw [next]
  split
  · rename_i h'
    rw [hq] at h'
    cases h'
  · rw [dif_pos hf]

theorem next_of_advance (hq : e.queued = []) (hf : e.finished = false) :
    e.next b l = match e.advance b l with
      | (.ok e', l') => e'.next b l'
      | (.error (.failed report), l') =>
        (.failed report, { e with queued := [], finished := true }, l'.note report)
      | (.error .stalled, l') => (.stalled, e, l') := by
  rw [next]
  split
  · rename_i h'
    rw [hq] at h'
    cases h'
  · rw [dif_neg (by simp [hf])]
    split <;> simp_all

theorem rest_eq : e.rest b l = match e.next b l with
    | (.item item, e', l') => (item :: (e'.rest b l').1, (e'.rest b l').2)
    | (.failed report, _, l') => ([], .error (.failed report), l')
    | (.stalled, _, l') => ([], .error .stalled, l')
    | (.ended, _, l') => ([], .ok (), l') := by
  rw [rest]
  split <;> simp_all

theorem rest_of_advance (hq : e.queued = []) (hf : e.finished = false)
    (h : e.advance b l = (.ok e', l')) : e.rest b l = e'.rest b l' := by
  rw [rest_eq, next_of_advance hq hf, h, ← rest_eq]

theorem rest_of_failure {report : Report} (hq : e.queued = []) (hf : e.finished = false)
    (h : e.advance b l = (.error (.failed report), l')) :
    e.rest b l = ([], .error (.failed report), l'.note report) := by
  rw [rest_eq, next_of_advance hq hf, h]

theorem rest_finished (hq : e.queued = []) (hf : e.finished = true) :
    e.rest b l = ([], .ok (), l) := by
  rw [rest_eq, next_finished hq hf]

theorem rest_queued {items : List EvalItem} (h : e.queued = items) :
    e.rest b l = (items ++ ({ e with queued := [] }.rest b l).1,
      ({ e with queued := [] }.rest b l).2) := by
  induction items generalizing e with
  | nil =>
    obtain ⟨deferring, marked, splitter, queued, finished⟩ := e
    cases h
    rfl
  | cons item items ih =>
    rw [rest_eq, next_queued h]
    simp only [ih (e := { e with queued := items }) rfl, List.cons_append]

end

end Evaluation

section

variable {σ : Type} {l : Link σ} {moments later : List Moment} {pieces : List (List UInt8)}

namespace Link

theorem awaitPiece_pours {piece : List UInt8} (hc : l.peer.coming = moments ++ later)
    (hp : l.peer.Pours moments (piece :: pieces)) :
    ∃ q left, awaitPiece l = (.ok piece, { l with peer := q }) ∧ q.coming = left ++ later ∧
      q.Pours left pieces ∧ (∀ bytes, l.peer.Speaks moments bytes → q.Speaks left bytes) ∧
      l.peer.Waited q := by
  obtain ⟨q, left, hawait, hcoming, hpours, hspeaks⟩ := hp.awaitPiece later
  have hwaited := l.peer.waited_awaitPiece l.peer.coming
  rw [hc, hawait, ← hc] at hwaited
  refine ⟨q, left, ?_, hcoming, hpours, hspeaks, hwaited⟩
  rw [awaitPiece, hc, hawait]

theorem awaitFrame_speaks {payload more : List UInt8} (hmax : payload.length ≤ Frame.maxPayload)
    (hc : l.peer.coming = moments ++ later) (hp : l.peer.Pours moments pieces)
    (hs : l.peer.Speaks moments (Frame.framed payload ++ more)) :
    ∃ q left, awaitFrame l = (.ok payload, { l with peer := q }) ∧ q.coming = left ++ later ∧
      q.Pours left pieces ∧ q.Speaks left more ∧ l.peer.Waited q := by
  obtain ⟨q, left, hawait, hcoming, hspeaks, hpours⟩ := hs.awaitFrame later hmax hp
  have hwaited := l.peer.waited_awaitFrame l.peer.coming
  rw [hc, hawait, ← hc] at hwaited
  refine ⟨q, left, ?_, hcoming, hpours, hspeaks, hwaited⟩
  rw [awaitFrame, hc, hawait]

/-- A frame that announces a result, and the frame with the result after it. -/
theorem readOutcome_result {tag payload more : List UInt8} (deferring : Bool)
    (htag : tagOf tag = .result) (htmax : tag.length ≤ Frame.maxPayload)
    (hmax : payload.length ≤ Frame.maxPayload) (hc : l.peer.coming = moments ++ later)
    (hp : l.peer.Pours moments pieces)
    (hs : l.peer.Speaks moments (Frame.framed tag ++ (Frame.framed payload ++ more))) :
    ∃ q left, readOutcome deferring l =
        (.ok (.result (resultOf payload).1 (resultOf payload).2), { l with peer := q }) ∧
      q.coming = left ++ later ∧ q.Pours left pieces ∧ q.Speaks left more := by
  obtain ⟨q₁, left₁, h₁, hc₁, hp₁, hs₁, -⟩ := awaitFrame_speaks htmax hc hp hs
  obtain ⟨q₂, left₂, h₂, hc₂, hp₂, hs₂, -⟩ :=
    awaitFrame_speaks (l := { l with peer := q₁ }) hmax hc₁ hp₁ hs₁
  refine ⟨q₂, left₂, ?_, hc₂, hp₂, hs₂⟩
  rw [readOutcome, Op.bind_ok h₁]
  simp only [htag]
  rw [Op.bind_ok h₂]
  rfl

end Link

namespace Evaluation

variable (b : Behaviour σ) {e : Evaluation}

def withPiece (e : Evaluation) (l : Link σ) (piece : List UInt8) : Evaluation :=
  { e with
    splitter := (e.splitter.push piece).2
    queued := e.queued ++ textItems (l.clean (e.splitter.push piece).1.text) }

def shown (l : Link σ) (splits : List Split) : List EvalItem :=
  splits.flatMap fun split => textItems (l.clean split.text)

theorem advance_of_piece {piece : List UInt8} {q : Peer σ}
    (h : Link.awaitPiece l = (.ok piece, { l with peer := q })) :
    e.advance b l = if (e.splitter.push piece).1.found
      then (e.withPiece l piece).settleOutcome b { l with peer := q }
      else (.ok (e.withPiece l piece), { l with peer := q }) := by
  rw [advance, Op.bind_ok h]
  simp only [withPiece]
  generalize e.splitter.push piece = pushed
  obtain ⟨split, splitter⟩ := pushed
  change (if split.found then _ else pure _ : LinkOp σ Evaluation) _ = _
  cases split.found <;> rfl

/-- The pieces before the one that completes the token are handed out as text, and the evaluation
goes on with the pieces after them. -/
theorem rest_pieces {first more : List (List UInt8)} (hq : e.queued = []) (hf : e.finished = false)
    (hc : l.peer.coming = moments ++ later) (hp : l.peer.Pours moments (first ++ more))
    (hn : ∀ split ∈ (e.splitter.pushAll first).1, split.found = false) :
    ∃ q left, q.coming = left ++ later ∧ q.Pours left more ∧
      (∀ bytes, l.peer.Speaks moments bytes → q.Speaks left bytes) ∧ l.peer.Waited q ∧
      e.rest b l =
        (shown l (e.splitter.pushAll first).1 ++
          ({ e with splitter := (e.splitter.pushAll first).2 }.rest b { l with peer := q }).1,
        ({ e with splitter := (e.splitter.pushAll first).2 }.rest b { l with peer := q }).2) := by
  induction first generalizing e l moments with
  | nil => exact ⟨l.peer, moments, hc, hp, fun _ h => h, l.peer.waited_refl, rfl⟩
  | cons piece first ih =>
    obtain ⟨q₁, left₁, hawait, hc₁, hp₁, hs₁, hw₁⟩ := Link.awaitPiece_pours hc hp
    have hadvance := advance_of_piece b (e := e) hawait
    have hfound : (e.splitter.push piece).1.found = false := hn _ (List.mem_cons_self ..)
    rw [hfound, if_neg Bool.false_ne_true] at hadvance
    obtain ⟨q, left, hcq, hpq, hsq, hwq, hrest⟩ :=
      ih (e := { e.withPiece l piece with queued := [] }) (l := { l with peer := q₁ }) rfl hf hc₁
        hp₁ fun split h => hn split (List.mem_cons_of_mem _ h)
    refine ⟨q, left, hcq, hpq, fun bytes h => hsq bytes (hs₁ bytes h), hw₁.trans hwq, ?_⟩
    have hqueued : (e.withPiece l piece).queued =
        textItems (l.clean (e.splitter.push piece).1.text) := by
      rw [withPiece, hq, List.nil_append]
    rw [rest_of_advance hq hf hadvance, rest_queued hqueued, hrest]
    obtain ⟨deferring, marked, splitter, queued, finished⟩ := e
    cases hq
    simp only [Splitter.pushAll, shown, List.flatMap_cons, List.append_assoc]
    rfl

/-- The piece that completes the token: its text waits for the outcome, and is handed out only
where the outcome is not a failure. -/
theorem rest_found {piece : List UInt8} {q : Peer σ} (hq : e.queued = []) (hf : e.finished = false)
    (h : Link.awaitPiece l = (.ok piece, { l with peer := q }))
    (hfound : (e.splitter.push piece).1.found = true) :
    e.rest b l = match (e.withPiece l piece).settleOutcome b { l with peer := q } with
      | (.ok e', l') => (e'.queued, .ok (), l')
      | (.error stop, l') => ([], .error stop, match stop with
        | .failed report => l'.note report
        | .stalled => l') := by
  have hadvance := advance_of_piece b (e := e) h
  rw [if_pos hfound] at hadvance
  cases hs : (e.withPiece l piece).settleOutcome b { l with peer := q } with
  | mk answer l' =>
    rw [hs] at hadvance
    cases answer with
    | ok e' =>
      have hfinished := settleOutcome_finished b hs
      rw [rest_of_advance hq hf hadvance, rest_queued rfl,
        rest_finished (e := { e' with queued := [] }) rfl hfinished]
      simp
    | error stop =>
      cases stop with
      | failed report => exact rest_of_failure hq hf hadvance
      | stalled => rw [rest_eq, next_of_advance hq hf, hadvance]

theorem settleOutcome_result {value : Sexp} {printed : String} {l' : Link σ}
    (h : Link.readOutcome e.deferring l = (.ok (.result value printed), l')) :
    e.settleOutcome b l =
      (.ok (e.conclude (.result value printed)), { l' with state := .idle }) := by
  rw [settleOutcome, Op.bind_ok h]
  rfl

/-- An evaluation that brings a result: the texts up to the token, the result, and the mark of the
end where it is asked for. -/
theorem rest_result {first extra : List (List UInt8)} {last tag payload more : List UInt8}
    (hq : e.queued = []) (hf : e.finished = false)
    (hc : l.peer.coming = moments ++ later) (hp : l.peer.Pours moments (first ++ last :: extra))
    (hs : l.peer.Speaks moments (Frame.framed tag ++ (Frame.framed payload ++ more)))
    (htag : Link.tagOf tag = .result) (htmax : tag.length ≤ Frame.maxPayload)
    (hmax : payload.length ≤ Frame.maxPayload)
    (hn : ∀ split ∈ (e.splitter.pushAll first).1, split.found = false)
    (hl : ((e.splitter.pushAll first).2.push last).1.found = true) :
    ∃ q, e.rest b l =
      (shown l ((e.splitter.pushAll first).1 ++ [((e.splitter.pushAll first).2.push last).1]) ++
        (.result (Link.resultOf payload).1 (Link.resultOf payload).2 ::
          if e.marked then [.complete] else []),
        .ok (), { l with peer := q, state := .idle }) := by
  obtain ⟨q₁, left₁, hc₁, hp₁, hs₁, -, hrest₁⟩ := rest_pieces b hq hf hc hp hn
  obtain ⟨q₂, left₂, hawait, hc₂, hp₂, hs₂, -⟩ :=
    Link.awaitPiece_pours (l := { l with peer := q₁ }) hc₁ hp₁
  obtain ⟨q, left, houtcome, -⟩ := Link.readOutcome_result (l := { l with peer := q₂ }) e.deferring
    htag htmax hmax hc₂ hp₂ (hs₂ _ (hs₁ _ hs))
  have hsettle := settleOutcome_result b (e := ({ e with
    splitter := (e.splitter.pushAll first).2 } : Evaluation).withPiece { l with peer := q₁ } last)
    houtcome
  refine ⟨q, ?_⟩
  rw [hrest₁,
    rest_found b (e := { e with splitter := (e.splitter.pushAll first).2 }) hq hf hawait hl,
    hsettle]
  simp only [shown, List.flatMap_append, List.flatMap_cons, List.flatMap_nil, List.append_nil,
    List.append_assoc, conclude, withPiece, outcomeItems, hq, List.nil_append,
    List.singleton_append]
  rfl

def textsOf (items : List EvalItem) : List String :=
  items.filterMap fun
    | .text text => some text
    | _ => none

theorem textsOf_append (items items' : List EvalItem) :
    textsOf (items ++ items') = textsOf items ++ textsOf items' := by
  simp [textsOf]

theorem textsOf_textItems (text : String) :
    textsOf (textItems text) = if text = "" then [] else [text] := by
  unfold textItems
  split <;> rfl

theorem ne_empty_of_mem_textsOf_shown {splits : List Split} {text : String}
    (h : text ∈ textsOf (shown l splits)) : text ≠ "" := by
  induction splits with
  | nil => simp [shown, textsOf] at h
  | cons split splits ih =>
    rw [shown, List.flatMap_cons, textsOf_append, List.mem_append] at h
    rcases h with h | h
    · rw [textsOf_textItems] at h
      split at h
      · simp at h
      · simp_all
    · exact ih h

theorem clean_of_plain {text : String}
    (h : l.tuning.color = true ∨ Text.escapeChar ∉ text.toList) : l.clean text = text := by
  unfold Link.clean
  rcases h with h | h
  · rw [if_pos h]
  · rw [Text.stripColor_of_not_mem h, ite_self]

theorem join_textsOf_shown_cons (l : Link σ) (split : Split) (splits : List Split) :
    String.join (textsOf (shown l (split :: splits))) =
      l.clean split.text ++ String.join (textsOf (shown l splits)) := by
  rw [shown, List.flatMap_cons, textsOf_append, String.join_append, textsOf_textItems, shown]
  congr 1
  split <;> simp_all

theorem join_textsOf_shown {splits : List Split}
    (h : l.tuning.color = true ∨ Text.escapeChar ∉ Splitter.textOf splits) :
    (String.join (textsOf (shown l splits))).toList = Splitter.textOf splits := by
  induction splits with
  | nil => simp [shown, textsOf, Splitter.textOf]
  | cons split splits ih =>
    rw [Splitter.textOf, List.flatMap_cons, List.mem_append, not_or] at h
    have hclean : l.clean split.text = split.text := clean_of_plain (h.imp_right And.left)
    rw [join_textsOf_shown_cons, String.toList_append, hclean, ih (h.imp_right And.right)]
    rfl

/-- An evaluation that brings a result, from the first piece on: the texts are the output. -/
theorem rest_start_result {pieces : List (List UInt8)} {output : List Char}
    {trailing tag payload more : List UInt8} (deferring marked : Bool)
    (hc : l.peer.coming = moments ++ later) (hp : l.peer.Pours moments pieces)
    (hs : l.peer.Speaks moments (Frame.framed tag ++ (Frame.framed payload ++ more)))
    (htag : Link.tagOf tag = .result) (htmax : tag.length ≤ Frame.maxPayload)
    (hmax : payload.length ≤ Frame.maxPayload)
    (hcut : pieces.flatten = output.flatMap Utf8.encodeChar ++ l.token ++ trailing)
    (honce : Splitter.OnlyAfter l.token (output.flatMap Utf8.encodeChar) trailing)
    (hplain : l.tuning.color = true ∨ Text.escapeChar ∉ output) :
    ∃ splits q, (start l deferring marked).rest b l =
      (shown l splits ++ (.result (Link.resultOf payload).1 (Link.resultOf payload).2 ::
        if marked then [.complete] else []), .ok (), { l with peer := q, state := .idle }) ∧
      (String.join (textsOf (shown l splits))).toList = output := by
  have hpos := List.length_pos_iff.2 honce.1
  have hcount : 0 < (output.flatMap Utf8.encodeChar).length + l.token.length := by omega
  have hcome : (output.flatMap Utf8.encodeChar).length + l.token.length ≤
      pieces.flatten.length := by
    rw [hcut]
    simp only [List.length_append]
    omega
  obtain ⟨first, last, extra, rfl, hlt, hle⟩ := Splitter.exists_completing hcount hcome
  obtain ⟨after, hafter, hfound, -, hlast⟩ := Splitter.pushAll_output (s := .start l.token)
    rfl honce hcut rfl hlt hle
  obtain ⟨q, hrest⟩ := rest_result b (e := start l deferring marked) rfl rfl hc hp hs htag htmax
    hmax hfound (by rw [start, hlast])
  have htext : Splitter.textOf ((Splitter.start l.token).pushAll first).1 ++ after =
      Splitter.textOf (((Splitter.start l.token).pushAll first).1 ++
        [((Splitter.start l.token).pushAll first).2.push last |>.1]) := by
    simp [Splitter.textOf, hlast]
  refine ⟨_, q, hrest, ?_⟩
  rw [hafter, htext] at hplain
  exact (join_textsOf_shown hplain).trans (htext.symm.trans hafter.symm)

end Evaluation

end

section

variable {σ : Type} {b : Behaviour σ}

/-- An evaluator that answers the lines on each channel with the same moments every time. -/
def Behaviour.answering (stdin socket : List Moment) : Behaviour Unit where
  react memory
    | .line .stdin _ => (memory, ⟨stdin, 0⟩)
    | .line .socket _ => (memory, ⟨socket, 0⟩)
    | _ => (memory, ⟨[], 0⟩)

def Link.fresh (port : Nat) : Link Unit :=
  .connected (.start () []) port Config.Layer.empty.resolve.tuning

/-- A living evaluator takes a form: what is left over from before is dropped, and the form is
written to its standard input. -/
structure Peer.Takes (b : Behaviour σ) (p : Peer σ) (form : String) (q : Peer σ) : Prop where
  alive : (p.act b .look).loss? = none
  written : ((((p.act b .look).act b .look).dropOutput.act b .look).dropInbox).write b .stdin
    (Text.trim form) = .ok q

theorem Link.eval_takes {l : Link σ} {form : String} {q : Peer σ} (hs : l.state ≠ .failed)
    (h : l.peer.Takes b form q) :
    eval b form l = (.ok (.start { l with peer := q, state := .evaluating } false true),
      { l with peer := q, state := .evaluating }) := by
  have hwrite : noting (writeStdin b form) { l with peer :=
      (((l.peer.act b .look).act b .look).dropOutput.act b .look).dropInbox } =
      (.ok (), { l with peer := q }) := noting_ok (writeStdin_ok h.written)
  rw [eval, Op.bind_ok (ensureUsable_ok hs h.alive)]
  change ((noting (writeStdin b form) >>= _ : LinkOp σ Evaluation) _) = _
  rw [Op.bind_ok hwrite]
  rfl

end

end SlimeServer
