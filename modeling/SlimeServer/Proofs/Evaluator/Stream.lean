import SlimeServer.Proofs.Evaluator.Failed
import SlimeServer.Proofs.Evaluator.Failure
/-!
# The shape of what an evaluation brings

Whatever the evaluator does, asking an evaluation for its items again and again brings texts first,
then either one failure, or at most one result and the mark of the end where it is asked for, and
from then on only that it has ended. For this, pieces of output are taken up to the one in which the
token is found, and one reply is read. Only an error makes it go back to the evaluator, for the call
stack.
-/
namespace SlimeServer

variable {σ : Type}

namespace Evaluation

/-- Where evaluations come from: a form was submitted, or output is consumed that nothing was
submitted for. Only the first is marked at its end. -/
inductive Opened (b : Behaviour σ) : Bool → Evaluation → Link σ → Prop
  | submitted {form : String} {l l' : Link σ} {e : Evaluation}
    (h : Link.eval b form l = (.ok e, l')) : Opened b true e l'
  | consumed {deferring : Bool} {l l' : Link σ} {e : Evaluation}
    (h : Link.consume deferring l = (.ok e, l')) : Opened b false e l'

/-- The outcomes of so many calls for the next item, and the link they leave. A call that waits for
ever has no outcome, and no call comes after it. -/
def calls (b : Behaviour σ) : Nat → Evaluation → Link σ → List Next × Link σ
  | 0, _, l => ([], l)
  | count + 1, e, l =>
    match e.next b l with
    | (.stalled, _, l') => ([], l')
    | (outcome, e', l') => (outcome :: (calls b count e' l').1, (calls b count e' l').2)

def said (texts : List String) : List Next := texts.map fun text => .item (.text text)

/-- How an evaluation closes: with a failure, or with at most one result and the mark of the end
where it is asked for. -/
inductive Closing (marked : Bool) : List Next → Prop
  | failed (report : Report) : Closing marked [.failed report]
  | whole (result? : Option (Sexp × String)) : Closing marked
      ((result?.toList.map fun result => .item (.result result.1 result.2)) ++
        if marked then [.item .complete] else [])

/-- Something that is asked of a link: a piece of output, which comes or does not, the reply after
the token, or the call stack. -/
inductive Access where
  | output (piece? : Option (List UInt8))
  | reply
  | callStack
  deriving DecidableEq, Repr

/-- The second link comes from the first by accesses, one after the other. Between them the state of
the link may be set. -/
inductive Accessed (b : Behaviour σ) (deferring : Bool) :
    List Access → Link σ → Link σ → Prop
  | nil (l : Link σ) : Accessed b deferring [] l l
  | state {accesses : List Access} {l l' : Link σ} (state : LinkState) :
    Accessed b deferring accesses { l with state := state } l' → Accessed b deferring accesses l l'
  | output {accesses : List Access} {l l₁ l' : Link σ} {got : Except (Stop Report) (List UInt8)} :
    Link.awaitPiece l = (got, l₁) → Accessed b deferring accesses l₁ l' →
      Accessed b deferring (.output got.toOption :: accesses) l l'
  | reply {accesses : List Access} {l l₁ l' : Link σ} {got : Except (Stop Report) Outcome} :
    Link.readOutcome deferring l = (got, l₁) → Accessed b deferring accesses l₁ l' →
      Accessed b deferring (.reply :: accesses) l l'
  | callStack {accesses : List Access} {l l₁ l' : Link σ} {depth : Nat}
    {got : Except (Stop Report) (List StackFrame)} :
    Link.fetchCallStack b depth l = (got, l₁) → Accessed b deferring accesses l₁ l' →
      Accessed b deferring (.callStack :: accesses) l l'

/-- The accesses of an evaluation, as far as it has come: pieces of output in which the token is not
found, then the piece in which it is, then one reply and at most a call stack after it. -/
inductive Orderly : Splitter → List Access → Prop
  | nil (s : Splitter) : Orderly s []
  | waited (s : Splitter) : Orderly s [.output none]
  | piece {s : Splitter} {piece : List UInt8} {accesses : List Access} :
    (s.push piece).1.found = false → Orderly (s.push piece).2 accesses →
      Orderly s (.output (some piece) :: accesses)
  | token {s : Splitter} {piece : List UInt8} : (s.push piece).1.found = true →
      Orderly s [.output (some piece), .reply]
  | raised {s : Splitter} {piece : List UInt8} : (s.push piece).1.found = true →
      Orderly s [.output (some piece), .reply, .callStack]

/-- What so many calls bring and what they do to a link. -/
structure Streams (b : Behaviour σ) (deferring marked : Bool) (s : Splitter) (l : Link σ)
    (count : Nat) (outcomes : List Next) (l' : Link σ) : Prop where
  /-- Texts that are not empty come first. Where more than texts has come, every call has returned,
  and behind the closing all of them tell that the evaluation has ended. -/
  shape : ∃ texts : List String, (∀ text ∈ texts, text ≠ "") ∧
    (outcomes = said texts ∨ outcomes.length = count ∧ ∃ closing more, Closing marked closing ∧
      outcomes <+: said texts ++ closing ++ List.replicate more .ended)
  /-- An evaluation that has ended without a failure leaves the link idle. -/
  idle : .ended ∈ outcomes → (∀ report, .failed report ∉ outcomes) → l'.state = .idle
  /-- A failure is kept in the state of the link. -/
  failed : ∀ report, .failed report ∈ outcomes →
    l'.state = if report.fatal then .failed else .errorRaised
  accesses : ∃ accesses, Accessed b deferring accesses l l' ∧ Orderly s accesses

section

variable {b : Behaviour σ} {e e' : Evaluation} {l l' l₁ : Link σ} {deferring marked : Bool}
  {s : Splitter} {count : Nat} {outcomes : List Next} {text : String} {piece : List UInt8}

theorem Opened.eq_start (h : Opened b marked e l) : ∃ deferring, e = start l deferring marked := by
  cases h with
  | submitted h => exact ⟨false, Link.eq_start_of_eval h⟩
  | consumed h =>
    cases h
    exact ⟨_, rfl⟩

theorem calls_queued {item : EvalItem} {rest : List EvalItem} (h : e.queued = item :: rest) :
    e.calls b (count + 1) l = (.item item :: ({ e with queued := rest }.calls b count l).1,
      ({ e with queued := rest }.calls b count l).2) := by
  rw [calls, next_queued h]

theorem calls_of_ok (hq : e.queued = []) (hf : e.finished = false)
    (h : e.advance b l = (.ok e', l')) : e.calls b (count + 1) l = e'.calls b (count + 1) l' := by
  rw [calls, next_of_advance hq hf, h, calls]

theorem calls_of_failed {report : Report} (hq : e.queued = []) (hf : e.finished = false)
    (h : e.advance b l = (.error (.failed report), l')) :
    e.calls b (count + 1) l =
      (.failed report ::
        ({ e with queued := [], finished := true }.calls b count (l'.note report)).1,
        ({ e with queued := [], finished := true }.calls b count (l'.note report)).2) := by
  rw [calls, next_of_advance hq hf, h]

theorem calls_of_stalled (hq : e.queued = []) (hf : e.finished = false)
    (h : e.advance b l = (.error .stalled, l')) : e.calls b (count + 1) l = ([], l') := by
  rw [calls, next_of_advance hq hf, h]

/-- An evaluation that is finished hands out what is queued, and then has ended for ever. -/
theorem calls_finished (hf : e.finished = true) (count : Nat) :
    (e.calls b count l).2 = l ∧ (e.calls b count l).1.length = count ∧
      ∃ more, (e.calls b count l).1 <+: e.queued.map .item ++ List.replicate more .ended := by
  induction count generalizing e with
  | zero => exact ⟨rfl, rfl, 0, List.nil_prefix⟩
  | succ count ih =>
    cases hq : e.queued with
    | nil =>
      obtain ⟨hlink, hlength, more, hheads⟩ := ih hf
      rw [calls, next_finished hq hf]
      rw [hq] at hheads
      exact ⟨hlink, congrArg (· + 1) hlength, more + 1, List.prefix_cons_inj _ |>.2 hheads⟩
    | cons item rest =>
      obtain ⟨hlink, hlength, more, hheads⟩ := ih (e := { e with queued := rest }) hf
      rw [calls_queued hq]
      exact ⟨hlink, congrArg (· + 1) hlength, more, List.prefix_cons_inj _ |>.2 hheads⟩

/-- How the reply after the token comes out: it does not come, it makes an error of which the call
stack is fetched, or it ends the evaluation. -/
inductive Settles (b : Behaviour σ) (e : Evaluation) (l : Link σ) :
    Except (Stop Report) Evaluation × Link σ → Prop
  | unanswered {stop : Stop Report} {l₁ : Link σ}
    (h : Link.readOutcome e.deferring l = (.error stop, l₁)) : Settles b e l (.error stop, l₁)
  | raised {message : String} {stop : Stop Report} {l₁ l₂ : Link σ} {depth : Nat}
    {got : Except (Stop Report) (List StackFrame)}
    (h : Link.readOutcome e.deferring l = (.ok (.error message), l₁))
    (hstack : Link.fetchCallStack b depth l₁ = (got, l₂)) : Settles b e l (.error stop, l₂)
  | concluded {outcome : Outcome} {l₁ : Link σ}
    (h : Link.readOutcome e.deferring l = (.ok outcome, l₁)) :
    Settles b e l (.ok (e.conclude outcome), { l₁ with state := .idle })

theorem settles (b : Behaviour σ) (e : Evaluation) (l : Link σ) :
    Settles b e l (e.settleOutcome b l) := by
  cases hreply : (Link.readOutcome e.deferring : LinkOp σ Outcome) l with
  | mk got l₁ =>
    cases got with
    | error stop =>
      rw [settleOutcome, Op.bind_error hreply]
      exact .unanswered hreply
    | ok outcome =>
      rw [settleOutcome, Op.bind_ok hreply]
      cases outcome with
      | error message =>
        cases hstack : Link.fetchCallStack b l₁.tuning.callStackDepth l₁ with
        | mk got l₂ =>
          change Settles b e l ((Link.fetchCallStack b l₁.tuning.callStackDepth >>= fun frames =>
            Op.fail (.raised message frames) : LinkOp σ Evaluation) l₁)
          cases got with
          | ok frames =>
            rw [Op.bind_ok hstack]
            exact .raised hreply hstack
          | error stop =>
            rw [Op.bind_error hstack]
            exact .raised hreply hstack
      | _ => exact .concluded hreply

/-- How an evaluation advances: no piece comes, or one without the token, or one with the token, so
that the reply decides. -/
inductive Advances (b : Behaviour σ) (e : Evaluation) (l : Link σ) :
    Except (Stop Report) Evaluation × Link σ → Prop
  | waited {stop : Stop Report} {l₁ : Link σ} (h : Link.awaitPiece l = (.error stop, l₁)) :
    Advances b e l (.error stop, l₁)
  | passed {piece : List UInt8} {l₁ : Link σ} (h : Link.awaitPiece l = (.ok piece, l₁))
    (hfound : (e.splitter.push piece).1.found = false) :
    Advances b e l (.ok (e.withPiece l piece), l₁)
  | settled {piece : List UInt8} {l₁ : Link σ} {answer : Except (Stop Report) Evaluation × Link σ}
    (h : Link.awaitPiece l = (.ok piece, l₁)) (hfound : (e.splitter.push piece).1.found = true)
    (hsettles : Settles b (e.withPiece l piece) l₁ answer) : Advances b e l answer

theorem advances (b : Behaviour σ) (e : Evaluation) (l : Link σ) :
    Advances b e l (e.advance b l) := by
  cases hpiece : (Link.awaitPiece : LinkOp σ (List UInt8)) l with
  | mk got l₁ =>
    cases got with
    | error stop =>
      rw [advance, Op.bind_error hpiece]
      exact .waited hpiece
    | ok piece =>
      obtain ⟨q, rfl⟩ : ∃ q, l₁ = { l with peer := q } := ⟨_, (congrArg Prod.snd hpiece).symm⟩
      rw [advance_of_piece b hpiece]
      split
      · exact .settled hpiece ‹_› (settles b _ _)
      · rename_i hfound
        exact .passed hpiece (Bool.eq_false_iff.2 hfound)

theorem Accessed.setState {accesses : List Access} (h : Accessed b deferring accesses l l')
    (state : LinkState) : Accessed b deferring accesses l { l' with state := state } := by
  induction h with
  | nil l => exact .state state (.nil _)
  | state earlier _ ih => exact .state earlier ih
  | output h _ ih => exact .output h ih
  | reply h _ ih => exact .reply h ih
  | callStack h _ ih => exact .callStack h ih

theorem textItems_eq_map (text : String) :
    ∃ texts : List String, textItems text = texts.map .text ∧ ∀ text ∈ texts, text ≠ "" := by
  rw [textItems]
  split
  · exact ⟨[], rfl, nofun⟩
  · rename_i hne
    exact ⟨[text], rfl, List.forall_mem_singleton.2 hne⟩

theorem mem_said {outcome : Next} {texts : List String} (h : outcome ∈ said texts) :
    ∃ text, outcome = .item (.text text) := by
  obtain ⟨text, -, rfl⟩ := List.mem_map.1 h
  exact ⟨text, rfl⟩

theorem streams_nil (b : Behaviour σ) (deferring marked : Bool) (s : Splitter) (l : Link σ)
    (count : Nat) : Streams b deferring marked s l count [] l where
  shape := ⟨[], nofun, .inl rfl⟩
  idle := nofun
  failed := nofun
  accesses := ⟨[], .nil l, .nil s⟩

theorem Streams.said (h : Streams b deferring marked s l count outcomes l') (ht : text ≠ "") :
    Streams b deferring marked s l (count + 1) (.item (.text text) :: outcomes) l' := by
  refine ⟨?_, ?_, ?_, h.accesses⟩
  · obtain ⟨texts, hne, hshape⟩ := h.shape
    refine ⟨text :: texts, List.forall_mem_cons.2 ⟨ht, hne⟩, ?_⟩
    rcases hshape with rfl | ⟨hlength, closing, more, hclosing, hheads⟩
    · exact .inl rfl
    · exact .inr ⟨congrArg (· + 1) hlength, closing, more, hclosing,
        List.prefix_cons_inj _ |>.2 hheads⟩
  · intro hended hfailed
    refine h.idle (by simpa using hended) fun report hreport => ?_
    exact hfailed report (List.mem_cons_of_mem _ hreport)
  · intro report hreport
    exact h.failed report (by simpa using hreport)

theorem Streams.passed (h : Streams b deferring marked (s.push piece).2 l₁ count outcomes l')
    (hpiece : Link.awaitPiece l = (.ok piece, l₁)) (hfound : (s.push piece).1.found = false) :
    Streams b deferring marked s l count outcomes l' := by
  obtain ⟨accesses, haccessed, horderly⟩ := h.accesses
  exact ⟨h.shape, h.idle, h.failed, _, .output hpiece haccessed, .piece hfound horderly⟩

/-- After a failure the evaluation has ended. -/
theorem streams_of_failed {report : Report} {accesses : List Access} (hq : e.queued = [])
    (hf : e.finished = false) (h : e.advance b l = (.error (.failed report), l'))
    (haccessed : Accessed b e.deferring accesses l l') (horderly : Orderly e.splitter accesses) :
    Streams b e.deferring e.marked e.splitter l (count + 1) (e.calls b (count + 1) l).1
      (e.calls b (count + 1) l).2 := by
  obtain ⟨hlink, hlength, more, hheads⟩ := calls_finished (b := b) (l := l'.note report)
    (e := { e with queued := [], finished := true }) rfl count
  rw [calls_of_failed hq hf h]
  generalize ({ e with queued := [], finished := true }.calls b count (l'.note report)).1 = later
    at hlength hheads
  have hended : ∀ outcome ∈ later, outcome = .ended := fun outcome hmem =>
    List.eq_of_mem_replicate (hheads.subset hmem)
  refine ⟨⟨[], nofun, .inr ⟨congrArg (· + 1) hlength, [.failed report], more, .failed report,
    List.prefix_cons_inj _ |>.2 hheads⟩⟩, ?_, ?_, accesses, ?_, horderly⟩
  · intro _ hnone
    exact absurd (List.mem_cons_self ..) (hnone report)
  · intro other hother
    rcases List.mem_cons.1 hother with hother | hother
    · cases hother
      rw [hlink]
      exact Link.state_note l' _
    · cases hended _ hother
  · rw [hlink]
    exact haccessed.setState _

theorem streams_of_stalled {accesses : List Access} (hq : e.queued = []) (hf : e.finished = false)
    (h : e.advance b l = (.error .stalled, l')) (haccessed : Accessed b e.deferring accesses l l')
    (horderly : Orderly e.splitter accesses) :
    Streams b e.deferring e.marked e.splitter l (count + 1) (e.calls b (count + 1) l).1
      (e.calls b (count + 1) l).2 := by
  rw [calls_of_stalled hq hf h]
  exact ⟨⟨[], nofun, .inl rfl⟩, nofun, nofun, accesses, haccessed, horderly⟩

theorem streams_of_stopped {stop : Stop Report} {accesses : List Access} (hq : e.queued = [])
    (hf : e.finished = false) (h : e.advance b l = (.error stop, l'))
    (haccessed : Accessed b e.deferring accesses l l') (horderly : Orderly e.splitter accesses) :
    Streams b e.deferring e.marked e.splitter l (count + 1) (e.calls b (count + 1) l).1
      (e.calls b (count + 1) l).2 := by
  cases stop with
  | failed report => exact streams_of_failed hq hf h haccessed horderly
  | stalled => exact streams_of_stalled hq hf h haccessed horderly

/-- What the piece with the token and the reply queue closes the evaluation. -/
theorem closing_conclude (hq : e.queued = []) (piece : List UInt8) (outcome : Outcome) :
    ∃ texts closing, (∀ text ∈ texts, text ≠ "") ∧ Closing e.marked closing ∧
      (((e.withPiece l piece).conclude outcome).queued.map Next.item = said texts ++ closing) ∧
      ∀ report, .failed report ∉ closing := by
  obtain ⟨texts, htexts, hne⟩ := textItems_eq_map (l.clean (e.splitter.push piece).1.text)
  have hsaid : (texts.map EvalItem.text).map Next.item = said texts := List.map_map
  have hresult : ∃ result? : Option (Sexp × String), (outcomeItems outcome).map Next.item =
      result?.toList.map fun result => .item (.result result.1 result.2) := by
    cases outcome with
    | result value printed => exact ⟨some (value, printed), rfl⟩
    | _ => exact ⟨none, rfl⟩
  obtain ⟨result?, hresult⟩ := hresult
  have hmark : (if e.marked then [EvalItem.complete] else []).map Next.item =
      if e.marked then [.item .complete] else [] := by
    split <;> rfl
  refine ⟨texts, _, hne, .whole result?, ?_, ?_⟩
  · have hmarked : (e.withPiece l piece).marked = e.marked := rfl
    rw [conclude, hmarked, List.map_append, List.map_append, withPiece, hq, List.nil_append,
      htexts, hsaid, hresult, hmark, List.append_assoc]
  · intro report hreport
    rcases List.mem_append.1 hreport with hreport | hreport
    · obtain ⟨result, -, hitem⟩ := List.mem_map.1 hreport
      cases hitem
    · split at hreport
      · cases List.mem_singleton.1 hreport
      · cases hreport

theorem streams_of_concluded {outcome : Outcome} {accesses : List Access} (hq : e.queued = [])
    (hf : e.finished = false)
    (h : e.advance b l = (.ok ((e.withPiece l piece).conclude outcome), l'))
    (hidle : l'.state = .idle) (haccessed : Accessed b e.deferring accesses l l')
    (horderly : Orderly e.splitter accesses) :
    Streams b e.deferring e.marked e.splitter l (count + 1) (e.calls b (count + 1) l).1
      (e.calls b (count + 1) l).2 := by
  obtain ⟨hlink, hlength, more, hheads⟩ := calls_finished (b := b) (l := l')
    (e := (e.withPiece l piece).conclude outcome) rfl (count + 1)
  obtain ⟨texts, closing, hne, hclosing, hqueued, hnone⟩ :=
    closing_conclude (l := l) hq piece outcome
  rw [calls_of_ok hq hf h, hlink]
  rw [hqueued] at hheads
  refine ⟨⟨texts, hne, .inr ⟨hlength, closing, more, hclosing, hheads⟩⟩, fun _ _ => hidle, ?_,
    accesses, haccessed, horderly⟩
  intro report hreport
  rcases List.mem_append.1 (hheads.subset hreport) with hreport | hreport
  · rcases List.mem_append.1 hreport with hreport | hreport
    · obtain ⟨text, htext⟩ := mem_said hreport
      cases htext
    · exact absurd hreport (hnone report)
  · cases List.eq_of_mem_replicate hreport

/-- The reply after the token closes the evaluation, whichever way it comes out. -/
theorem streams_of_settled {answer : Except (Stop Report) Evaluation × Link σ}
    (hq : e.queued = []) (hf : e.finished = false) (h : e.advance b l = answer)
    (hpiece : Link.awaitPiece l = (.ok piece, l₁))
    (hfound : (e.splitter.push piece).1.found = true)
    (hsettles : Settles b (e.withPiece l piece) l₁ answer) :
    Streams b e.deferring e.marked e.splitter l (count + 1) (e.calls b (count + 1) l).1
      (e.calls b (count + 1) l).2 := by
  cases hsettles with
  | unanswered hreply =>
    exact streams_of_stopped hq hf h (.output hpiece (.reply hreply (.nil _))) (.token hfound)
  | raised hreply hstack =>
    exact streams_of_stopped hq hf h
      (.output hpiece (.reply hreply (.callStack hstack (.nil _)))) (.raised hfound)
  | concluded hreply =>
    exact streams_of_concluded hq hf h rfl
      (.output hpiece (.reply hreply (.state _ (.nil _)))) (.token hfound)

end

section

variable {b : Behaviour σ} {e : Evaluation} {l : Link σ}

/-- Calls of an evaluation that is not finished, by the number of calls and, where a call takes
several pieces, by what the evaluator can still bring. -/
theorem streams_of_unfinished (hf : e.finished = false) {texts : List String}
    (hq : e.queued = texts.map .text) (hne : ∀ text ∈ texts, text ≠ "") (count : Nat) :
    Streams b e.deferring e.marked e.splitter l count (e.calls b count l).1
      (e.calls b count l).2 := by
  induction count generalizing e l texts with
  | zero => exact streams_nil ..
  | succ count ih =>
    induction hremaining : e.remaining l using Nat.strongRecOn generalizing e l texts with
    | ind remaining ihr =>
      cases texts with
      | cons text rest =>
        obtain ⟨htext, hrest⟩ := List.forall_mem_cons.1 hne
        rw [calls_queued hq]
        exact (ih (e := { e with queued := rest.map .text }) hf rfl hrest).said htext
      | nil =>
        have hadvances := advances b e l
        cases hadvance : e.advance b l with
        | mk answer l' =>
          rw [hadvance] at hadvances
          cases hadvances with
          | waited hpiece =>
            exact streams_of_stopped hq hf hadvance (.output hpiece (.nil _)) (.waited _)
          | @passed piece _ hpiece hfound =>
            have hless := advance_remaining b hf hadvance
            obtain ⟨texts, htexts, hne⟩ :=
              textItems_eq_map (l.clean (e.splitter.push piece).1.text)
            have hqueued : (e.withPiece l piece).queued = texts.map .text := by
              rw [withPiece, hq, List.map_nil, List.nil_append, htexts]
            rw [calls_of_ok hq hf hadvance]
            exact (ihr _ (hremaining ▸ hless) (e := e.withPiece l piece) hf hqueued hne
              rfl).passed hpiece hfound
          | settled hpiece hfound hsettles =>
            exact streams_of_settled hq hf hadvance hpiece hfound hsettles

/-- Calls of an evaluation bring a stream, whatever the evaluator does. -/
theorem calls_stream {marked : Bool} (h : Opened b marked e l) (count : Nat) :
    Streams b e.deferring marked (.start l.token) l count (e.calls b count l).1
      (e.calls b count l).2 := by
  obtain ⟨deferring, rfl⟩ := h.eq_start
  have hqueued : (start l deferring marked).queued = ([] : List String).map .text := rfl
  exact streams_of_unfinished rfl hqueued nofun count

end

theorem calls_warned : (start warned false true).calls warning 3 warned =
    ([.item (.text "load"),
      .failed (.desynchronized "Unhandled socket response type: warn"), .ended],
      { warned with peer := { warned.peer with coming := [] }, state := .failed }) := by
  have hfirst : (start warned false true).advance warning warned =
      (.ok { start warned false true with queued := textItems (warned.clean "load") },
        { warned with peer := { warned.peer with coming := warned.peer.coming.drop 1 } }) := rfl
  have hitems : textItems (warned.clean "load") = [.text "load"] := by
    rw [clean_of_plain (.inr (by simp [Text.escapeChar]))]
    rfl
  have hsecond : (start warned false true).advance warning
      { warned with peer := { warned.peer with coming := warned.peer.coming.drop 1 } } =
      (.error (.failed (.desynchronized "Unhandled socket response type: warn")),
        { warned with peer := { warned.peer with coming := [] } }) := rfl
  rw [hitems] at hfirst
  rw [calls_of_ok rfl rfl hfirst, calls_queued rfl]
  simp only [start] at hsecond ⊢
  rw [calls_of_failed rfl rfl hsecond, calls, next_finished rfl rfl]
  rfl

theorem calls_stream_warned : Opened warning true (start warned false true) warned ∧
    Streams warning false true (.start warned.token) warned 3
      [.item (.text "load"),
        .failed (.desynchronized "Unhandled socket response type: warn"), .ended]
      { warned with peer := { warned.peer with coming := [] }, state := .failed } := by
  have hstreams := calls_stream (.submitted eval_warned) 3
  rw [calls_warned] at hstreams
  exact ⟨.submitted eval_warned, hstreams⟩

end Evaluation

end SlimeServer
