import Mathlib.Logic.Relation
import SlimeServer.Proofs.Evaluator.Evaluation
/-!
# Schedules of an evaluation

An evaluation is followed in single steps that take turns in any way with what the evaluator does:
its next moment happens, or a piece of output or a frame that has come is taken, or an item is
handed out. Every schedule is finite. Following an evaluation to its end is the schedule in which
moments happen only while there is nothing to take.
-/
namespace SlimeServer

variable {σ : Type}

namespace Peer

variable {p q : Peer σ}

theorem happen_coming (p : Peer σ) (m : Moment) (moments : List Moment) :
    { p with coming := moments }.happen m = { p.happen m with coming := moments } := by
  cases m <;> simp only [happen] <;> split <;> rfl

theorem elapse_nil (h : p.coming = []) (count : Nat) : p.elapse count = p := by
  obtain ⟨memory, coming, queue, queueOpen, inbox, socketEnd, state, stdin, socket, sent⟩ := p
  cases h
  simp only [elapse, List.take_nil, List.drop_nil, List.foldl_nil]

theorem elapse_cons (p : Peer σ) (m : Moment) (later : List Moment) (count : Nat) :
    { p with coming := m :: later }.elapse (count + 1) =
      { p.happen m with coming := later }.elapse count := by
  simp only [elapse, List.take_succ_cons, List.drop_succ_cons, List.foldl_cons, happen_coming]

theorem elapse_succ {m : Moment} {later : List Moment} (h : p.coming = m :: later) (count : Nat) :
    p.elapse (count + 1) = { p.happen m with coming := later }.elapse count := by
  rw [← elapse_cons, ← h]

theorem elapse_one {m : Moment} {later : List Moment} (h : p.coming = m :: later) :
    p.elapse 1 = { p.happen m with coming := later } :=
  elapse_succ h 0

theorem elapse_add_one (p : Peer σ) (count : Nat) :
    p.elapse (count + 1) = (p.elapse 1).elapse count := by
  cases h : p.coming with
  | nil => rw [elapse_nil h, elapse_nil h, elapse_nil h]
  | cons m later => rw [elapse_succ h, elapse_one h]

/-- A piece that was waited for is taken from the queue once some moments have happened. -/
theorem exists_elapse_of_awaitPiece {coming : List Moment} {piece : List UInt8}
    (h : p.awaitPiece coming = (.ok piece, q)) :
    ∃ count rest, ({ p with coming := coming }.elapse count).queue = piece :: rest ∧
      q = { { p with coming := coming }.elapse count with queue := rest } := by
  fun_induction awaitPiece p coming with
  | case1 p coming head rest hq =>
    simp only [Prod.mk.injEq, Except.ok.injEq] at h
    obtain ⟨rfl, rfl⟩ := h
    exact ⟨0, rest, hq, rfl⟩
  | case2 => simp at h
  | case3 => simp at h
  | case4 p hq ho later hl ih =>
    obtain ⟨count, rest, hqueue, rfl⟩ := ih h
    have hstep : { p with coming := .tick :: later }.elapse (count + 1) =
        { p with coming := later }.elapse count := elapse_cons p .tick later count
    exact ⟨count + 1, rest, hstep ▸ hqueue, by rw [hstep]⟩
  | case5 p hq ho m later hm ih =>
    obtain ⟨count, rest, hqueue, rfl⟩ := ih h
    have hstep := elapse_cons p m later count
    exact ⟨count + 1, rest, hstep ▸ hqueue, by rw [hstep]⟩
  | case6 => simp at h

/-- A frame that was waited for is read once some moments have happened. -/
theorem exists_elapse_of_awaitFrame {coming : List Moment} {payload : List UInt8}
    (h : p.awaitFrame coming = (.ok payload, q)) :
    ∃ count rest,
      Frame.read ({ p with coming := coming }.elapse count).deliveries = .done payload rest ∧
      q = { { p with coming := coming }.elapse count with inbox := bytesOf rest } := by
  fun_induction awaitFrame p coming with
  | case1 p coming got rest hr =>
    simp only [Prod.mk.injEq, Except.ok.injEq] at h
    obtain ⟨rfl, rfl⟩ := h
    exact ⟨0, rest, hr, rfl⟩
  | case2 => simp at h
  | case3 => simp at h
  | case4 => simp at h
  | case5 => simp at h
  | case6 p hr later hl ih =>
    obtain ⟨count, rest, hread, rfl⟩ := ih h
    have hstep : { p with coming := .tick :: later }.elapse (count + 1) =
        { p with coming := later }.elapse count := elapse_cons p .tick later count
    exact ⟨count + 1, rest, hstep ▸ hread, by rw [hstep]⟩
  | case7 p hr m later hm ih =>
    obtain ⟨count, rest, hread, rfl⟩ := ih h
    have hstep := elapse_cons p m later count
    exact ⟨count + 1, rest, hstep ▸ hread, by rw [hstep]⟩

end Peer

/-- How far the follower of an evaluation is. -/
inductive Stage where
  /-- The next item is asked for. -/
  | asked (e : Evaluation)
  /-- The token has come, and the frame that tells the outcome is waited for. -/
  | token (e : Evaluation)
  /-- A result is announced, and the frame with it is waited for. -/
  | announced (e : Evaluation)
  | ended
  | failed
  deriving DecidableEq, Repr

structure Following (σ : Type) where
  link : Link σ
  stage : Stage
  items : List EvalItem

def Link.leave (l : Link σ) (rest : List Delivery) : Link σ :=
  { l with peer := { l.peer with inbox := Peer.bytesOf rest } }

namespace Following

def afterPiece (e : Evaluation) (l : Link σ) (piece : List UInt8) : Stage :=
  if (e.splitter.push piece).1.found then .token (e.withPiece l piece)
  else .asked (e.withPiece l piece)

/-- What ends a stage in failure: the process is gone or its output closed, a frame is broken, or
the outcome is neither a result nor an abort. -/
def Fails (l : Link σ) : Stage → Prop
  | .asked e => e.queued = [] ∧ e.finished = false ∧
    (l.peer.loss? ≠ none ∨ l.peer.queue = [] ∧ l.peer.queueOpen = false)
  | .token e => l.peer.loss? ≠ none ∨
    (∃ error rest, Frame.read l.peer.deliveries = .failed error rest) ∨
    ∃ tag rest, Frame.read l.peer.deliveries = .done tag rest ∧
      (Link.tagOf tag = .unknown ∨ Link.tagOf tag = .error ∧ e.deferring = false)
  | .announced _ => l.peer.loss? ≠ none ∨
    ∃ error rest, Frame.read l.peer.deliveries = .failed error rest
  | .ended | .failed => False

/-- One step of the evaluator or of its follower. Passing polls are moments, and a poll that finds
the process gone is a failure. What a failure reports is left out. -/
inductive Step : Following σ → Following σ → Prop
  | moment {l : Link σ} {stage : Stage} {items : List EvalItem} (h : l.peer.coming ≠ []) :
    Step ⟨l, stage, items⟩ ⟨{ l with peer := l.peer.elapse 1 }, stage, items⟩
  | hand {l : Link σ} {e : Evaluation} {items queued : List EvalItem} {item : EvalItem}
    (h : e.queued = item :: queued) :
    Step ⟨l, .asked e, items⟩ ⟨l, .asked { e with queued := queued }, items ++ [item]⟩
  | finish {l : Link σ} {e : Evaluation} {items : List EvalItem}
    (hq : e.queued = []) (hf : e.finished = true) :
    Step ⟨l, .asked e, items⟩ ⟨l, .ended, items⟩
  | piece {l : Link σ} {e : Evaluation} {items : List EvalItem} {piece : List UInt8}
    {rest : List (List UInt8)} (hq : e.queued = []) (hf : e.finished = false)
    (h : l.peer.queue = piece :: rest) :
    Step ⟨l, .asked e, items⟩
      ⟨{ l with peer := { l.peer with queue := rest } }, afterPiece e l piece, items⟩
  | announce {l : Link σ} {e : Evaluation} {items : List EvalItem} {tag : List UInt8}
    {rest : List Delivery} (h : Frame.read l.peer.deliveries = .done tag rest)
    (ht : Link.tagOf tag = .result) :
    Step ⟨l, .token e, items⟩ ⟨l.leave rest, .announced e, items⟩
  | abort {l : Link σ} {e : Evaluation} {items : List EvalItem} {tag : List UInt8}
    {rest : List Delivery} (h : Frame.read l.peer.deliveries = .done tag rest)
    (ht : Link.tagOf tag = .abort) :
    Step ⟨l, .token e, items⟩
      ⟨{ l.leave rest with state := .idle }, .asked (e.conclude .abort), items⟩
  | defer {l : Link σ} {e : Evaluation} {items : List EvalItem} {tag : List UInt8}
    {rest : List Delivery} (h : Frame.read l.peer.deliveries = .done tag rest)
    (ht : Link.tagOf tag = .error) (hd : e.deferring = true) :
    Step ⟨l, .token e, items⟩
      ⟨{ l.leave rest with state := .idle }, .asked (e.conclude .deferred), items⟩
  | result {l : Link σ} {e : Evaluation} {items : List EvalItem} {payload : List UInt8}
    {rest : List Delivery} (h : Frame.read l.peer.deliveries = .done payload rest) :
    Step ⟨l, .announced e, items⟩ ⟨{ l.leave rest with state := .idle },
      .asked (e.conclude (.result (Link.resultOf payload).1 (Link.resultOf payload).2)), items⟩
  | fail {l : Link σ} {stage : Stage} {items : List EvalItem} (h : Fails l stage) :
    Step ⟨l, stage, items⟩ ⟨l, .failed, items⟩

abbrev Run : Following σ → Following σ → Prop := Relation.ReflTransGen Step

section

variable {c c' : Following σ}

/-- How many steps a stage allows at most, apart from moments and pieces. -/
def weightOf : Stage → Nat
  | .asked e => (if e.finished then 1 else 5) + e.queued.length
  | .token e => 5 + e.queued.length
  | .announced e => 4 + e.queued.length
  | .ended | .failed => 0

def weight (c : Following σ) : Nat :=
  -- A moment can bring a piece of output, and a piece an item.
  3 * c.link.peer.coming.length + 2 * c.link.peer.queue.length + weightOf c.stage

theorem length_textItems_le (text : String) : (Evaluation.textItems text).length ≤ 1 := by
  unfold Evaluation.textItems
  split <;> simp

theorem length_queued_conclude_le (e : Evaluation) (outcome : Outcome) :
    (e.conclude outcome).queued.length ≤ e.queued.length + 2 := by
  have hitems : (Evaluation.outcomeItems outcome).length ≤ 1 := by
    cases outcome <;> simp [Evaluation.outcomeItems]
  simp only [Evaluation.conclude, List.length_append]
  split <;> simp only [List.length_cons, List.length_nil] <;> omega

theorem weightOf_asked_le (e : Evaluation) : weightOf (.asked e) ≤ 5 + e.queued.length := by
  simp only [weightOf]
  split <;> omega

theorem weightOf_afterPiece_le (e : Evaluation) (l : Link σ) (piece : List UInt8) :
    weightOf (afterPiece e l piece) ≤ 6 + e.queued.length := by
  have hqueued : (e.withPiece l piece).queued.length ≤ e.queued.length + 1 := by
    have := length_textItems_le (l.clean (e.splitter.push piece).1.text)
    simp only [Evaluation.withPiece, List.length_append]
    omega
  have hasked := weightOf_asked_le (e.withPiece l piece)
  have htoken : weightOf (.token (e.withPiece l piece)) =
      5 + (e.withPiece l piece).queued.length := rfl
  unfold afterPiece
  split <;> omega

theorem weightOf_conclude_le (e : Evaluation) (outcome : Outcome) :
    weightOf (.asked (e.conclude outcome)) ≤ 3 + e.queued.length := by
  have hqueued := length_queued_conclude_le e outcome
  simp only [weightOf, Evaluation.conclude_finished, if_true]
  omega

theorem weightOf_pos_of_fails {l : Link σ} {stage : Stage} (h : Fails l stage) :
    0 < weightOf stage := by
  cases stage with
  | asked e => simp only [weightOf]; split <;> omega
  | token e => simp only [weightOf]; omega
  | announced e => simp only [weightOf]; omega
  | ended => exact h.elim
  | failed => exact h.elim

theorem Step.weight_lt (h : Step c c') : c'.weight < c.weight := by
  cases h with
  | @moment l stage items h =>
    obtain ⟨m, later, hm⟩ := List.exists_cons_of_ne_nil h
    have hqueue := l.peer.length_queue_happen m
    simp only [weight, Peer.elapse_one hm, hm, List.length_cons]
    omega
  | hand h =>
    simp only [weight, weightOf, h, List.length_cons]
    omega
  | finish hq hf => simp only [weight, weightOf, hf, if_true]; omega
  | @piece l e items piece rest hq hf h =>
    have hstage := weightOf_afterPiece_le e l piece
    have hasked : weightOf (.asked e) = 5 := by simp [weightOf, hf, hq]
    simp only [weight, hasked, h, List.length_cons, hq, List.length_nil] at hstage ⊢
    omega
  | announce h ht =>
    simp only [weight, Link.leave, weightOf]
    omega
  | @abort l e items tag rest h ht =>
    have hstage := weightOf_conclude_le e .abort
    have htoken : weightOf (.token e) = 5 + e.queued.length := rfl
    simp only [weight, Link.leave, htoken]
    omega
  | @defer l e items tag rest h ht hd =>
    have hstage := weightOf_conclude_le e .deferred
    have htoken : weightOf (.token e) = 5 + e.queued.length := rfl
    simp only [weight, Link.leave, htoken]
    omega
  | @result l e items payload rest h =>
    have hstage := weightOf_conclude_le e
      (.result (Link.resultOf payload).1 (Link.resultOf payload).2)
    have hannounced : weightOf (.announced e) = 4 + e.queued.length := rfl
    simp only [weight, Link.leave, hannounced]
    omega
  | fail h =>
    have hpos := weightOf_pos_of_fails h
    simp only [weight]
    have hfailed : weightOf .failed = 0 := rfl
    omega

theorem wellFounded_step : WellFounded fun c' c : Following σ => Step c c' :=
  Subrelation.wf (fun h => Step.weight_lt h) (measure weight).wf

end

section

variable {b : Behaviour σ} {e e' : Evaluation} {l l' : Link σ}

theorem run_elapse (l : Link σ) (stage : Stage) (items : List EvalItem) (count : Nat) :
    Run ⟨l, stage, items⟩ ⟨{ l with peer := l.peer.elapse count }, stage, items⟩ := by
  induction count generalizing l with
  | zero => exact .refl
  | succ count ih =>
    by_cases hc : l.peer.coming = []
    · rw [Peer.elapse_nil hc]
    · rw [Peer.elapse_add_one]
      exact .head (.moment hc) (ih { l with peer := l.peer.elapse 1 })

theorem run_awaitPiece {piece : List UInt8} (stage : Stage) (items : List EvalItem)
    (h : Link.awaitPiece l = (.ok piece, l')) :
    ∃ p rest, Run ⟨l, stage, items⟩ ⟨{ l with peer := p }, stage, items⟩ ∧
      p.queue = piece :: rest ∧ l' = { l with peer := { p with queue := rest } } := by
  rw [Link.awaitPiece] at h
  generalize hawait : l.peer.awaitPiece l.peer.coming = answer at h
  obtain ⟨got, q⟩ := answer
  simp only [Prod.mk.injEq] at h
  obtain ⟨rfl, rfl⟩ := h
  obtain ⟨count, rest, hqueue, rfl⟩ := Peer.exists_elapse_of_awaitPiece hawait
  exact ⟨l.peer.elapse count, rest, run_elapse l stage items count, hqueue, rfl⟩

theorem run_awaitFrame {payload : List UInt8} (stage : Stage) (items : List EvalItem)
    (h : Link.awaitFrame l = (.ok payload, l')) :
    ∃ p rest, Run ⟨l, stage, items⟩ ⟨{ l with peer := p }, stage, items⟩ ∧
      Frame.read p.deliveries = .done payload rest ∧
      l' = ({ l with peer := p } : Link σ).leave rest := by
  rw [Link.awaitFrame] at h
  generalize hawait : l.peer.awaitFrame l.peer.coming = answer at h
  obtain ⟨got, q⟩ := answer
  simp only [Prod.mk.injEq] at h
  obtain ⟨rfl, rfl⟩ := h
  obtain ⟨count, rest, hread, rfl⟩ := Peer.exists_elapse_of_awaitFrame hawait
  exact ⟨l.peer.elapse count, rest, run_elapse l stage items count, hread, rfl⟩

theorem run_settleOutcome (items : List EvalItem) (h : e.settleOutcome b l = (.ok e', l')) :
    Run ⟨l, .token e, items⟩ ⟨l', .asked e', items⟩ := by
  simp only [Evaluation.settleOutcome, Link.readOutcome, Op.bind_eq_ok] at h
  obtain ⟨outcome, l₁, ⟨tag, l₂, htag, houtcome⟩, h⟩ := h
  obtain ⟨p, rest, hrun, hread, rfl⟩ := run_awaitFrame (.token e) items htag
  cases ht : Link.tagOf tag with
  | result =>
    simp only [ht, Op.bind_eq_ok] at houtcome
    obtain ⟨payload, l₃, hpayload, houtcome⟩ := houtcome
    obtain ⟨p', rest', hrun', hread', rfl⟩ := run_awaitFrame (.announced e) items hpayload
    cases houtcome
    cases h
    exact (hrun.tail (.announce hread ht)).trans (hrun'.tail (.result hread'))
  | error =>
    cases hd : e.deferring with
    | true =>
      simp only [ht, hd, if_true] at houtcome
      cases houtcome
      cases h
      exact hrun.tail (.defer hread ht hd)
    | false =>
      simp only [ht, hd, Bool.false_eq_true, if_false, Op.bind_eq_ok] at houtcome
      obtain ⟨payload, l₃, -, l₄, l₅, -, houtcome⟩ := houtcome
      cases houtcome
      exact absurd h (Evaluation.raise_ne_ok b)
  | abort =>
    simp only [ht] at houtcome
    cases houtcome
    cases h
    exact hrun.tail (.abort hread ht)
  | unknown =>
    simp only [ht] at houtcome
    cases houtcome

theorem run_advance (items : List EvalItem) (hq : e.queued = []) (hf : e.finished = false)
    (h : e.advance b l = (.ok e', l')) : Run ⟨l, .asked e, items⟩ ⟨l', .asked e', items⟩ := by
  have h' := h
  simp only [Evaluation.advance, Op.bind_eq_ok] at h'
  obtain ⟨piece, l₁, hpiece, -⟩ := h'
  obtain ⟨p, rest, hrun, hqueue, rfl⟩ := run_awaitPiece (.asked e) items hpiece
  have htaken := hrun.tail (.piece (l := { l with peer := p }) hq hf hqueue)
  rw [Evaluation.advance_of_piece b hpiece] at h
  cases hfound : (e.splitter.push piece).1.found with
  | true =>
    rw [hfound, if_pos rfl] at h
    rw [afterPiece, hfound, if_pos rfl] at htaken
    exact htaken.trans (run_settleOutcome items h)
  | false =>
    rw [hfound, if_neg Bool.false_ne_true] at h
    rw [afterPiece, hfound, if_neg Bool.false_ne_true] at htaken
    cases h
    exact htaken

/-- Asking for the next item is a schedule, up to the item or the end. -/
theorem run_next (items : List EvalItem) :
    (∀ {item}, e.next b l = (.item item, e', l') →
      Run ⟨l, .asked e, items⟩ ⟨l', .asked e', items ++ [item]⟩) ∧
    (e.next b l = (.ended, e', l') → Run ⟨l, .asked e, items⟩ ⟨l', .ended, items⟩) := by
  fun_induction Evaluation.next b e l with
  | case1 e l head rest hq =>
    refine ⟨fun h => ?_, fun h => by simp at h⟩
    simp only [Prod.mk.injEq, Next.item.injEq] at h
    obtain ⟨rfl, rfl, rfl⟩ := h
    exact .single (.hand hq)
  | case2 e l hq hf =>
    refine ⟨fun h => by simp at h, fun h => ?_⟩
    simp only [Prod.mk.injEq, true_and] at h
    obtain ⟨rfl, rfl⟩ := h
    exact .single (.finish hq hf)
  | case3 e l hq hf e₁ l₁ ha ih =>
    have hadvance := run_advance items hq (by simpa using hf) ha
    exact ⟨fun h => hadvance.trans (ih.1 h), fun h => hadvance.trans (ih.2 h)⟩
  | case4 => exact ⟨fun h => by simp at h, fun h => by simp at h⟩
  | case5 => exact ⟨fun h => by simp at h, fun h => by simp at h⟩

/-- Following an evaluation to its end is a schedule. -/
theorem run_rest (items : List EvalItem) {items' : List EvalItem}
    (h : e.rest b l = (items', .ok (), l')) :
    Run ⟨l, .asked e, items⟩ ⟨l', .ended, items ++ items'⟩ := by
  fun_induction Evaluation.rest b e l generalizing items items' with
  | case1 e l item e₁ l₁ hn later answer l₂ hr ih =>
    simp only [Prod.mk.injEq] at h
    obtain ⟨rfl, rfl, rfl⟩ := h
    have hrest := ih (items ++ [item]) hr
    rw [List.append_assoc, List.singleton_append] at hrest
    exact ((run_next items).1 hn).trans hrest
  | case2 => simp at h
  | case3 => simp at h
  | case4 e l e₁ l₁ hn =>
    simp only [Prod.mk.injEq, true_and] at h
    obtain ⟨rfl, rfl⟩ := h
    rw [List.append_nil]
    exact (run_next items).2 hn

end

end Following

end SlimeServer
