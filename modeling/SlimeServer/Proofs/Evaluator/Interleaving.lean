import SlimeServer.Proofs.Evaluator.Detection
import SlimeServer.Proofs.Evaluator.Failure
import SlimeServer.Proofs.Evaluator.Schedule
/-!
# Schedules agree

On a living evaluator that completes the token and replies with a result or an abort, every
schedule of an evaluation comes to its end, and all of them hand out the same items. What is still
to come on the two channels is an invariant: whatever the follower takes is next on its channel,
and the socket is left alone until the token is complete.
-/
namespace SlimeServer

variable {σ : Type}

namespace Peer

variable {p : Peer σ} {pieces payloads : List (List UInt8)}

/-- A living evaluator has sent these pieces of output, and these payloads in frames on the socket,
or is about to send them. -/
structure Sends (p : Peer σ) (pieces payloads : List (List UInt8)) : Prop where
  pours : p.Pours p.coming pieces
  speaks : p.Speaks p.coming (payloads.flatMap Frame.framed)
  fits : ∀ payload ∈ payloads, payload.length ≤ Frame.maxPayload

theorem Sends.elapse_one (h : p.Sends pieces payloads) : (p.elapse 1).Sends pieces payloads := by
  cases hc : p.coming with
  | nil => rwa [elapse_nil hc]
  | cons m later =>
    have hp := h.pours
    have hs := h.speaks
    rw [hc] at hp hs
    have hp' := hp.happen
    have hs' := hs.happen
    rw [Peer.elapse_one hc]
    exact ⟨⟨hp'.queueOpen, hp'.alive, hp'.keeps, hp'.pieces_eq⟩,
      ⟨hs'.socketOpen, hs'.keeps, hs'.bytes_eq⟩, h.fits⟩

theorem Sends.take_piece {piece : List UInt8} {rest : List (List UInt8)}
    (h : p.Sends pieces payloads) (hq : p.queue = piece :: rest) :
    ∃ more, pieces = piece :: more ∧ { p with queue := rest }.Sends more payloads := by
  have hp := h.pours
  have hpieces := hp.pieces_eq
  rw [hq, List.cons_append] at hpieces
  exact ⟨_, hpieces.symm, ⟨hp.queueOpen, hp.alive, hp.keeps, rfl⟩,
    ⟨h.speaks.socketOpen, h.speaks.keeps, h.speaks.bytes_eq⟩, h.fits⟩

theorem Sends.queue_eq (h : p.Sends pieces payloads) (hc : p.coming = []) : p.queue = pieces := by
  have hpieces := h.pours.pieces_eq
  rwa [hc, List.filterMap_nil, List.append_nil] at hpieces

section

variable {payload : List UInt8} {more : List (List UInt8)} (h : p.Sends pieces (payload :: more))

include h

theorem Sends.speaks_cons :
    p.Speaks p.coming (Frame.framed payload ++ more.flatMap Frame.framed) ∧
      payload.length ≤ Frame.maxPayload :=
  ⟨h.speaks, h.fits payload (List.mem_cons_self ..)⟩

theorem Sends.take_frame {got : List UInt8} {rest : List Delivery}
    (hr : Frame.read p.deliveries = .done got rest) :
    got = payload ∧ { p with inbox := bytesOf rest }.Sends pieces more := by
  obtain ⟨hs, hmax⟩ := h.speaks_cons
  rcases hs.read hmax with ⟨-, hstarved⟩ | ⟨left, hread, hleft⟩
  · rw [hstarved] at hr
    cases hr
  · rw [hread] at hr
    cases hr
    refine ⟨rfl, ⟨h.pours.queueOpen, h.pours.alive, h.pours.keeps, h.pours.pieces_eq⟩,
      ⟨hs.socketOpen, hs.keeps, ?_⟩, fun payload hp => h.fits payload (List.mem_cons_of_mem _ hp)⟩
    simpa only [bytesOf_putBack] using hleft

theorem Sends.read_ne_failed (error : FrameError) (rest : List Delivery) :
    Frame.read p.deliveries ≠ .failed error rest := by
  obtain ⟨hs, hmax⟩ := h.speaks_cons
  intro hr
  rcases hs.read hmax with ⟨-, hread⟩ | ⟨left, hread, -⟩
  · rw [hread] at hr
    cases hr
  · rw [hread] at hr
    cases hr

theorem Sends.read_done (hc : p.coming = []) :
    ∃ rest, Frame.read p.deliveries = .done payload rest := by
  obtain ⟨hs, hmax⟩ := h.speaks_cons
  rcases hs.read hmax with ⟨hlt, -⟩ | ⟨left, hread, -⟩
  · have hinbox := hs.bytes_eq
    rw [hc, List.flatMap_nil, List.append_nil] at hinbox
    rw [hinbox, List.length_append] at hlt
    omega
  · exact ⟨_, hread⟩

end

end Peer

namespace Link

section

variable {l : Link σ} {pieces payloads : List (List UInt8)}

theorem awaitPiece_sends {piece : List UInt8} (h : l.peer.Sends (piece :: pieces) payloads) :
    ∃ q, awaitPiece l = (.ok piece, { l with peer := q }) ∧ q.Sends pieces payloads ∧
      l.peer.Waited q := by
  have hc : l.peer.coming = l.peer.coming ++ [] := (List.append_nil _).symm
  obtain ⟨q, left, hawait, hleft, hpours, hspeaks, hwaited⟩ := awaitPiece_pours hc h.pours
  rw [List.append_nil] at hleft
  exact ⟨q, hawait, ⟨hleft ▸ hpours, hleft ▸ hspeaks _ h.speaks, h.fits⟩, hwaited⟩

theorem awaitFrame_sends {payload : List UInt8} (h : l.peer.Sends pieces (payload :: payloads)) :
    ∃ q, awaitFrame l = (.ok payload, { l with peer := q }) ∧ q.Sends pieces payloads ∧
      l.peer.Waited q := by
  have hc : l.peer.coming = l.peer.coming ++ [] := (List.append_nil _).symm
  obtain ⟨hspeaks, hmax⟩ := h.speaks_cons
  obtain ⟨q, left, hawait, hleft, hpours, hspeaks, hwaited⟩ :=
    awaitFrame_speaks hmax hc h.pours hspeaks
  rw [List.append_nil] at hleft
  have hfits : ∀ more ∈ payloads, more.length ≤ Frame.maxPayload :=
    fun more hm => h.fits more (List.mem_cons_of_mem _ hm)
  exact ⟨q, hawait, ⟨hleft ▸ hpours, hleft ▸ hspeaks, hfits⟩, hwaited⟩

end

/-- The payloads of a reply, and the outcome that they are. -/
inductive Reply : List (List UInt8) → Outcome → Prop
  | result {tag payload : List UInt8} (ht : tagOf tag = .result) :
    Reply [tag, payload] (.result (resultOf payload).1 (resultOf payload).2)
  | abort {tag : List UInt8} (ht : tagOf tag = .abort) : Reply [tag] .abort

/-- A reply that is sent is read. -/
theorem readOutcome_reply {l : Link σ} {pieces payloads : List (List UInt8)} {outcome : Outcome}
    (deferring : Bool) (hr : Reply payloads outcome) (hs : l.peer.Sends pieces payloads) :
    ∃ q, readOutcome deferring l = (.ok outcome, { l with peer := q }) ∧ q.Sends pieces [] ∧
      l.peer.Waited q := by
  cases hr with
  | result ht =>
    obtain ⟨q₁, hawait₁, hs₁, hwaited₁⟩ := awaitFrame_sends hs
    obtain ⟨q, hawait, hq, hwaited⟩ := awaitFrame_sends (l := { l with peer := q₁ }) hs₁
    refine ⟨q, ?_, hq, hwaited₁.trans hwaited⟩
    rw [readOutcome, Op.bind_ok hawait₁]
    simp only [ht]
    rw [Op.bind_ok hawait]
    rfl
  | abort ht =>
    obtain ⟨q, hawait, hq, hwaited⟩ := awaitFrame_sends hs
    refine ⟨q, ?_, hq, hwaited⟩
    rw [readOutcome, Op.bind_ok hawait]
    simp only [ht]
    rfl

end Link

namespace Evaluation

variable {b : Behaviour σ} {l : Link σ} {e : Evaluation} {pieces payloads : List (List UInt8)}
  {outcome : Outcome}

/-- All that an evaluation hands out from here on, for the pieces of output and the outcome that
are still to be taken. -/
def whole (e : Evaluation) (l : Link σ) (pieces : List (List UInt8)) (outcome : Outcome) :
    List EvalItem :=
  ({ e with queued := e.queued ++ shown l (e.splitter.upToToken pieces) }.conclude outcome).queued

/-- The items of an evaluation: the texts up to the token, the result if there is one, and the mark
of the end. -/
def itemsOf (l : Link σ) (pieces : List (List UInt8)) (outcome : Outcome) : List EvalItem :=
  shown l ((Splitter.start l.token).upToToken pieces) ++ outcomeItems outcome ++ [.complete]

theorem whole_start : (start l false true).whole l pieces outcome = itemsOf l pieces outcome := rfl

theorem whole_of_found {piece : List UInt8} {more : List (List UInt8)}
    (hfound : (e.splitter.push piece).1.found = true) :
    e.whole l (piece :: more) outcome = ((e.withPiece l piece).conclude outcome).queued := by
  rw [whole, Splitter.upToToken_of_found more hfound]
  simp only [conclude, withPiece, shown, List.flatMap_cons, List.flatMap_nil, List.append_nil]
  rfl

theorem whole_of_not_found {piece : List UInt8} {more : List (List UInt8)}
    (hfound : (e.splitter.push piece).1.found = false) :
    e.whole l (piece :: more) outcome = (e.withPiece l piece).whole l more outcome := by
  rw [whole, whole, Splitter.upToToken_of_not_found more hfound]
  simp only [conclude, withPiece, shown, List.flatMap_cons, List.append_assoc]
  rfl

theorem whole_of_queued {item : EvalItem} {queued : List EvalItem} (h : e.queued = item :: queued) :
    e.whole l pieces outcome = item :: { e with queued := queued }.whole l pieces outcome := by
  simp only [whole, conclude, h, List.cons_append]

theorem settleOutcome_of_reply (hr : Link.Reply payloads outcome)
    (hs : l.peer.Sends pieces payloads) :
    ∃ l', e.settleOutcome b l = (.ok (e.conclude outcome), l') := by
  obtain ⟨q, houtcome, -⟩ := Link.readOutcome_reply e.deferring hr hs
  refine ⟨{ l with peer := q, state := .idle }, ?_⟩
  rw [settleOutcome, Op.bind_ok houtcome]
  cases hr <;> rfl

theorem advance_of_sends (hr : Link.Reply payloads outcome) (hs : l.peer.Sends pieces payloads)
    (hfinds : e.splitter.Finds pieces) : ∃ e' l', e.advance b l = (.ok e', l') := by
  obtain ⟨piece, more, rfl⟩ := List.exists_cons_of_ne_nil hfinds.ne_nil
  obtain ⟨q, hawait, hq, -⟩ := Link.awaitPiece_sends hs
  rw [advance_of_piece b hawait]
  cases (e.splitter.push piece).1.found with
  | false => exact ⟨_, _, rfl⟩
  | true =>
    obtain ⟨l', hsettle⟩ := settleOutcome_of_reply (b := b) (e := e.withPiece l piece)
      (l := { l with peer := q }) hr hq
    exact ⟨_, l', by rw [if_pos rfl, hsettle]⟩

end Evaluation

namespace Following

open Evaluation (itemsOf)

variable {total : List EvalItem} {c c' : Following σ} {l : Link σ} {e : Evaluation} {stage : Stage}
  {items : List EvalItem}

/-- Following an evaluation is on the way to these items in all. -/
inductive OnCourse (total : List EvalItem) : Following σ → Prop
  | asked {l : Link σ} {e : Evaluation} {items : List EvalItem}
    {pieces payloads : List (List UInt8)} {outcome : Outcome} (hf : e.finished = false)
    (hs : l.peer.Sends pieces payloads) (hr : Link.Reply payloads outcome)
    (hfinds : e.splitter.Finds pieces)
    (ht : total = items ++ e.whole l pieces outcome) : OnCourse total ⟨l, .asked e, items⟩
  | token {l : Link σ} {e : Evaluation} {items : List EvalItem}
    {pieces payloads : List (List UInt8)} {outcome : Outcome}
    (hs : l.peer.Sends pieces payloads) (hr : Link.Reply payloads outcome)
    (ht : total = items ++ (e.conclude outcome).queued) : OnCourse total ⟨l, .token e, items⟩
  | announced {l : Link σ} {e : Evaluation} {items : List EvalItem} {pieces : List (List UInt8)}
    {payload : List UInt8} (hs : l.peer.Sends pieces [payload])
    (ht : total = items ++
      (e.conclude (.result (Link.resultOf payload).1 (Link.resultOf payload).2)).queued) :
    OnCourse total ⟨l, .announced e, items⟩
  | concluded {l : Link σ} {e : Evaluation} {items : List EvalItem} (hf : e.finished = true)
    (hi : l.state = .idle) (ht : total = items ++ e.queued) : OnCourse total ⟨l, .asked e, items⟩
  | ended {l : Link σ} (hi : l.state = .idle) : OnCourse total ⟨l, .ended, total⟩

/-- Nothing fails on the way. -/
theorem OnCourse.not_fails (h : OnCourse total ⟨l, stage, items⟩) : ¬ Fails l stage := by
  intro hfails
  cases h with
  | asked hf hs hr hfinds ht =>
    obtain ⟨-, -, hlost | ⟨-, hclosed⟩⟩ := hfails
    · exact hlost hs.pours.alive
    · rw [hs.pours.queueOpen] at hclosed
      cases hclosed
  | token hs hr ht =>
    rcases hfails with hlost | ⟨error, rest, hread⟩ | ⟨tag, rest, hread, htag⟩
    · exact hlost hs.pours.alive
    · cases hr <;> exact hs.read_ne_failed error rest hread
    · cases hr with
      | result hresult =>
        obtain ⟨rfl, -⟩ := hs.take_frame hread
        simp [hresult] at htag
      | abort habort =>
        obtain ⟨rfl, -⟩ := hs.take_frame hread
        simp [habort] at htag
  | announced hs ht =>
    rcases hfails with hlost | ⟨error, rest, hread⟩
    · exact hlost hs.pours.alive
    · exact hs.read_ne_failed error rest hread
  | concluded hf hi ht =>
    obtain ⟨-, hunfinished, -⟩ := hfails
    rw [hf] at hunfinished
    cases hunfinished
  | ended hi => exact hfails

theorem OnCourse.step (h : OnCourse total c) (hstep : Step c c') : OnCourse total c' := by
  -- The invariant names the stage that was reached, so for each step only the stages are left from
  -- which it starts.
  cases hstep with
  | moment hm =>
    cases h with
    | asked hf hs hr hfinds ht => exact .asked hf hs.elapse_one hr hfinds ht
    | token hs hr ht => exact .token hs.elapse_one hr ht
    | announced hs ht => exact .announced hs.elapse_one ht
    | concluded hf hi ht => exact .concluded hf hi ht
    | ended hi => exact .ended hi
  | hand hq =>
    cases h with
    | asked hf hs hr hfinds ht =>
      refine .asked hf hs hr hfinds ?_
      rw [ht, Evaluation.whole_of_queued hq, List.append_assoc, List.singleton_append]
    | concluded hf hi ht =>
      refine .concluded hf hi ?_
      rw [ht, hq, List.append_assoc, List.singleton_append]
  | finish hq hf =>
    cases h with
    | asked hunfinished hs hr hfinds ht =>
      rw [hf] at hunfinished
      cases hunfinished
    | concluded hf hi ht =>
      rw [hq, List.append_nil] at ht
      exact ht ▸ .ended hi
  | @piece l e items piece rest hq hf hqueue =>
    cases h with
    | asked _ hs hr hfinds ht =>
      obtain ⟨more, rfl, hmore⟩ := hs.take_piece hqueue
      cases hfound : (e.splitter.push piece).1.found with
      | true =>
        rw [Evaluation.whole_of_found hfound] at ht
        rw [afterPiece, hfound, if_pos rfl]
        exact .token hmore hr ht
      | false =>
        rw [Evaluation.whole_of_not_found hfound] at ht
        rw [afterPiece, hfound, if_neg Bool.false_ne_true]
        exact .asked hf hmore hr (hfinds.later hfound) ht
    | concluded hfinished hi ht =>
      rw [hf] at hfinished
      cases hfinished
  | announce hread htag =>
    cases h with
    | token hs hr ht =>
      obtain _ | habort := hr
      · obtain ⟨rfl, hleft⟩ := hs.take_frame hread
        exact .announced hleft ht
      · obtain ⟨rfl, -⟩ := hs.take_frame hread
        cases htag.symm.trans habort
  | abort hread htag =>
    cases h with
    | token hs hr ht =>
      obtain hresult | _ := hr
      · obtain ⟨rfl, -⟩ := hs.take_frame hread
        cases htag.symm.trans hresult
      · exact .concluded rfl rfl ht
  | defer hread htag hd =>
    -- No reply that is sent can be deferred.
    cases h with
    | token hs hr ht =>
      obtain hresult | habort := hr
      · obtain ⟨rfl, -⟩ := hs.take_frame hread
        cases htag.symm.trans hresult
      · obtain ⟨rfl, -⟩ := hs.take_frame hread
        cases htag.symm.trans habort
  | result hread =>
    cases h with
    | announced hs ht =>
      obtain ⟨rfl, -⟩ := hs.take_frame hread
      exact .concluded rfl rfl ht
  | fail hfails => exact absurd hfails h.not_fails

theorem OnCourse.run (h : OnCourse total c) (hrun : Run c c') : OnCourse total c' := by
  induction hrun with
  | refl => exact h
  | tail _ hstep ih => exact ih.step hstep

/-- Where no step is left, the end is reached. -/
theorem OnCourse.ended_of_stuck (h : OnCourse total c) (hstuck : ∀ c', ¬ Step c c') :
    c.stage = .ended := by
  have hc : c.link.peer.coming = [] := by
    obtain ⟨l, stage, items⟩ := c
    exact Classical.byContradiction fun hc => hstuck _ (.moment hc)
  cases h with
  | @asked l e items pieces payloads outcome hf hs hr hfinds ht =>
    exfalso
    cases hq : e.queued with
    | cons item queued => exact hstuck _ (.hand hq)
    | nil =>
      obtain ⟨piece, more, rfl⟩ := List.exists_cons_of_ne_nil hfinds.ne_nil
      exact hstuck _ (.piece hq hf (hs.queue_eq hc))
  | token hs hr ht =>
    exfalso
    cases hr with
    | result hresult =>
      obtain ⟨rest, hread⟩ := hs.read_done hc
      exact hstuck _ (.announce hread hresult)
    | abort habort =>
      obtain ⟨rest, hread⟩ := hs.read_done hc
      exact hstuck _ (.abort hread habort)
  | announced hs ht =>
    obtain ⟨rest, hread⟩ := hs.read_done hc
    exact absurd (.result hread) (hstuck _)
  | @concluded l e items hf hi ht =>
    exfalso
    cases hq : e.queued with
    | cons item queued => exact hstuck _ (.hand hq)
    | nil => exact hstuck _ (.finish hq hf)
  | ended hi => rfl

theorem OnCourse.items_prefix (h : OnCourse total c) : c.items <+: total := by
  cases h with
  | asked hf hs hr hfinds ht => exact ⟨_, ht.symm⟩
  | token hs hr ht => exact ⟨_, ht.symm⟩
  | announced hs ht => exact ⟨_, ht.symm⟩
  | concluded hf hi ht => exact ⟨_, ht.symm⟩
  | ended hi => exact List.prefix_rfl

section

variable (b : Behaviour σ)

theorem OnCourse.advance (h : OnCourse total ⟨l, .asked e, items⟩) (hf : e.finished = false) :
    ∃ e' l', e.advance b l = (.ok e', l') := by
  cases h with
  | asked _ hs hr hfinds _ => exact Evaluation.advance_of_sends hr hs hfinds
  | concluded hfinished _ _ =>
    rw [hf] at hfinished
    cases hfinished

theorem OnCourse.next (h : OnCourse total ⟨l, .asked e, items⟩) :
    (∃ item e' l', e.next b l = (.item item, e', l')) ∨ ∃ e' l', e.next b l = (.ended, e', l') := by
  fun_induction Evaluation.next b e l with
  | case1 => exact .inl ⟨_, _, _, rfl⟩
  | case2 => exact .inr ⟨_, _, rfl⟩
  | case3 e l hq hf e₁ l₁ ha ih =>
    exact ih (h.run (run_advance items hq (by simpa using hf) ha))
  | case4 e l hq hf report l₁ ha =>
    obtain ⟨e', l', hadvance⟩ := h.advance b (by simpa using hf)
    cases ha.symm.trans hadvance
  | case5 e l hq hf l₁ ha =>
    obtain ⟨e', l', hadvance⟩ := h.advance b (by simpa using hf)
    cases ha.symm.trans hadvance

theorem OnCourse.rest (h : OnCourse total ⟨l, .asked e, items⟩) :
    ∃ items' l', e.rest b l = (items', .ok (), l') := by
  fun_induction Evaluation.rest b e l generalizing items with
  | case1 e l item e₁ l₁ hn later answer l₂ hr ih =>
    obtain ⟨items', l', hrest⟩ := ih (h.run ((run_next items).1 hn))
    rw [hr] at hrest
    cases hrest
    exact ⟨_, _, rfl⟩
  | case2 e l report e₁ l₁ hn => rcases h.next b with ⟨_, _, _, h⟩ | ⟨_, _, h⟩ <;> simp [hn] at h
  | case3 e l e₁ l₁ hn => rcases h.next b with ⟨_, _, _, h⟩ | ⟨_, _, h⟩ <;> simp [hn] at h
  | case4 => exact ⟨_, _, rfl⟩

end

/-- The items of an evaluation do not depend on how its two channels, the polls and the follower
take turns. On a living evaluator that sends the token once and replies with a result or an abort,
following the evaluation to its end is one of the schedules. Every schedule is finite, hands out a
beginning of the same items, never fails, and stops only where all of them are handed out and the
link is idle. -/
theorem schedules_agree {b : Behaviour σ} {form : String} {l₀ : Link σ}
    {pieces payloads : List (List UInt8)} {outcome : Outcome}
    (heval : Link.eval b form l₀ = (.ok e, l)) (hs : l.peer.Sends pieces payloads)
    (hr : Link.Reply payloads outcome)
    (honce : Splitter.occurrences l.token pieces.flatten = 1) :
    (∃ l', e.rest b l = (itemsOf l pieces outcome, .ok (), l') ∧
      Run ⟨l, .asked e, []⟩ ⟨l', .ended, itemsOf l pieces outcome⟩) ∧
    Acc (fun c' c => Step c c') ⟨l, .asked e, []⟩ ∧
    ∀ c, Run ⟨l, .asked e, []⟩ c →
      c.items <+: itemsOf l pieces outcome ∧ c.stage ≠ .failed ∧
      (c.stage = .ended → c.items = itemsOf l pieces outcome ∧ c.link.state = .idle) ∧
      ((∀ c', ¬ Step c c') → c.stage = .ended) := by
  obtain rfl := Link.eq_start_of_eval heval
  have hfinds : (Splitter.start l.token).Finds pieces :=
    Splitter.finds_of_occurrences (by rw [honce]; decide)
  have hstart : OnCourse (itemsOf l pieces outcome) ⟨l, .asked (.start l false true), []⟩ :=
    .asked rfl hs hr hfinds (by rw [Evaluation.whole_start, List.nil_append])
  have hended : ∀ c : Following σ, OnCourse (itemsOf l pieces outcome) c → c.stage = .ended →
      c.items = itemsOf l pieces outcome ∧ c.link.state = .idle := by
    intro c hc hstage
    cases hc with
    | ended hi => exact ⟨rfl, hi⟩
    | _ => cases hstage
  refine ⟨?_, wellFounded_step.apply _, fun c hrun => ?_⟩
  · obtain ⟨items, l', hrest⟩ := hstart.rest b
    have hrun := run_rest [] hrest
    obtain ⟨hitems, -⟩ := hended _ (hstart.run hrun) rfl
    rw [List.nil_append] at hitems hrun
    exact ⟨l', hitems ▸ hrest, hitems ▸ hrun⟩
  · have hc := hstart.run hrun
    refine ⟨hc.items_prefix, ?_, hended c hc, hc.ended_of_stuck⟩
    intro hfailed
    cases hc <;> cases hfailed

/-- An evaluator that starts its reply before its output, and is polled inside the token. -/
def chatting : Behaviour Unit := .answering
  [.received ((Frame.framed (Utf8.encode "result")).take 4), .output (Utf8.encode "hel"), .tick,
    .received ((Frame.framed (Utf8.encode "result")).drop 4 ++ Frame.framed (Utf8.encode "42")),
    .output (Utf8.encode "lo" ++ (Utf8.encode (sessionToken 4005)).take 3), .tick,
    .output ((Utf8.encode (sessionToken 4005)).drop 3)] []

def chatted : Link Unit := (Link.eval chatting "(chat)" (.fresh 4005)).2

theorem eval_chatted : Link.eval chatting "(chat)" (.fresh 4005) =
    (.ok (.start chatted false true), chatted) := rfl

theorem sends_chatted : chatted.peer.Sends
    [Utf8.encode "hel", Utf8.encode "lo" ++ (Utf8.encode (sessionToken 4005)).take 3,
      (Utf8.encode (sessionToken 4005)).drop 3] [Utf8.encode "result", Utf8.encode "42"] :=
  ⟨⟨rfl, rfl, by decide, rfl⟩, ⟨rfl, by decide, rfl⟩, by decide⟩

theorem itemsOf_chatted : itemsOf chatted
    [Utf8.encode "hel", Utf8.encode "lo" ++ (Utf8.encode (sessionToken 4005)).take 3,
      (Utf8.encode (sessionToken 4005)).drop 3]
    (.result (Link.resultOf (Utf8.encode "42")).1 (Link.resultOf (Utf8.encode "42")).2) =
    [.text "hel", .text "lo", .result (.integer 42) "42", .complete] := by
  decide +kernel

theorem schedules_agree_chatted :
    let items := [.text "hel", .text "lo", .result (.integer 42) "42", .complete]
    (∃ l', (Evaluation.start chatted false true).rest chatting chatted = (items, .ok (), l') ∧
      Run ⟨chatted, .asked (.start chatted false true), []⟩ ⟨l', .ended, items⟩) ∧
    Acc (fun c' c => Step c c') ⟨chatted, .asked (.start chatted false true), []⟩ ∧
    ∀ c, Run ⟨chatted, .asked (.start chatted false true), []⟩ c →
      c.items <+: items ∧ c.stage ≠ .failed ∧
      (c.stage = .ended → c.items = items ∧ c.link.state = .idle) ∧
      ((∀ c', ¬ Step c c') → c.stage = .ended) := by
  have h := schedules_agree eval_chatted sends_chatted (.result (by decide +kernel))
    (by decide +kernel)
  rw [itemsOf_chatted] at h
  exact h

end Following

end SlimeServer
