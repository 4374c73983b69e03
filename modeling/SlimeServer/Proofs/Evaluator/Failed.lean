import SlimeServer.Proofs.Evaluator.Operations
/-!
# Failures kept in the state

A link fails exactly with a fatal failure, and over a failed link every operation is refused. Any
other failure is kept as an error raised.
-/
namespace SlimeServer

variable {σ : Type}

namespace Peer

variable {p q : Peer σ} {coming : List Moment} {report : Report}

theorem fatal_of_loss? (h : p.loss? = some report) : report.fatal = true := by
  obtain ⟨reason, -, rfl⟩ := Option.map_eq_some_iff.1 h
  exact Report.fatal_lost reason

theorem fatal_of_awaitFrame
    (h : p.awaitFrame coming = (.error (.failed report), q)) : report.fatal = true := by
  fun_induction awaitFrame p coming with
  | case1 => cases h
  | case2 p coming error rest hr =>
    cases h
    exact Report.fatal_ofFrameError error
  | case3 p hr report' hl =>
    cases h
    exact fatal_of_loss? hl
  | case4 => cases h
  | case5 p hr later report' hl =>
    cases h
    exact fatal_of_loss? hl
  | case6 p hr later hl ih => exact ih h
  | case7 p hr moment later hm ih => exact ih h

theorem fatal_of_awaitPiece (h : p.awaitPiece coming = (.error (.failed report), q)) :
    report.fatal = true := by
  fun_induction awaitPiece p coming with
  | case1 => cases h
  | case2 p hq ho =>
    cases hl : p.loss? with
    | none => simp [hl] at h
    | some report' =>
      simp only [hl, Option.elim_some, Prod.mk.injEq, Except.error.injEq, Stop.failed.injEq] at h
      exact h.1 ▸ fatal_of_loss? hl
  | case3 p hq ho later report' hl =>
    cases h
    exact fatal_of_loss? hl
  | case4 p hq ho later hl ih => exact ih h
  | case5 p hq ho moment later hm ih => exact ih h
  | case6 coming p hq ho =>
    cases hl : p.loss? with
    | none =>
      simp only [hl, Option.getD_none, Prod.mk.injEq, Except.error.injEq, Stop.failed.injEq] at h
      exact h.1 ▸ rfl
    | some report' =>
      simp only [hl, Option.getD_some, Prod.mk.injEq, Except.error.injEq, Stop.failed.injEq] at h
      exact h.1 ▸ fatal_of_loss? hl

end Peer

namespace Link

def refusal : Report :=
  .lost "Evaluator connection has failed; invoke RESTART to start a new evaluator"

section

variable {b : Behaviour σ} {l : Link σ} (h : l.state = .failed)
include h

theorem ensureUsable_failed : ensureUsable b l = (.error (.failed refusal), l) := by
  rw [ensureUsable, Op.bind_ok (Op.get_apply l), if_pos h]
  rfl

theorem eval_failed (form : String) : eval b form l = (.error (.failed refusal), l) := by
  rw [eval]
  exact Op.bind_error (ensureUsable_failed h)

theorem execute_failed (command : String) :
    execute b command l = (.error (.failed refusal), l) := by
  rw [execute]
  exact Op.bind_error (ensureUsable_failed h)

theorem resetToTopLevel_failed : resetToTopLevel b l = (.error (.failed refusal), l) := by
  rw [resetToTopLevel]
  exact Op.bind_error (ensureUsable_failed h)

theorem acknowledge_failed : l.acknowledge = l := by
  rw [acknowledge, if_pos h]

end

def Recorded {α : Type} (op : LinkOp σ α) : Prop :=
  ∀ l l' report, op l = (.error (.failed report), l') → (l'.state = .failed ↔ report.fatal = true)

def stateAfter (report : Report) : LinkState := if report.fatal then .failed else .errorRaised

theorem stateAfter_eq_failed_iff {report : Report} :
    stateAfter report = .failed ↔ report.fatal = true := by
  rw [stateAfter]
  cases report.fatal with
  | true => simp
  | false => simp

def marking (K : LinkState → Prop) : Contract (Link σ) Report where
  kept l := K l.state
  failed report l := l.state = stateAfter report
  waiting _ := True

def losing : Contract (Link σ) Report where
  kept _ := True
  failed report _ := report.fatal = true
  waiting _ := True

def sameState : Law (Link σ) :=
  .ofRelation (fun l l' => l'.state = l.state) (fun _ => rfl) fun h h' => h'.trans h

theorem awaits_sameState : Awaits (sameState : Law (Link σ)) := ⟨fun _ _ => rfl, fun _ _ _ => rfl⟩

open Op (Obeys Upholds)

section

variable {C : Contract (Link σ) Report} {b : Behaviour σ}

def KeptByPeers (C : Contract (Link σ) Report) : Prop :=
  ∀ l peer, C.kept l → C.kept { l with peer := peer }

variable (h : KeptByPeers C)
include h

theorem upholds_modifyPeer (f : Peer σ → Peer σ) : Upholds C (modifyPeer f : LinkOp σ Unit) :=
  Op.upholds_modify fun l => h l (f l.peer)

theorem upholds_dropOutput : Upholds C (dropOutput b) :=
  (upholds_modifyPeer h _).bind fun _ => upholds_modifyPeer h _

theorem upholds_dropInbox : Upholds C (dropInbox b) :=
  (upholds_modifyPeer h _).bind fun _ => upholds_modifyPeer h _

end

section

variable {α : Type} {b : Behaviour σ} {K : LinkState → Prop}

theorem keptByPeers_marking : KeptByPeers (marking K : Contract (Link σ) Report) :=
  fun _ _ hl => hl

theorem recorded_of_marking {op : LinkOp σ α} (h : Upholds (marking fun _ => True) op) :
    Recorded op := by
  intro l l' report hrun
  have hstate : l'.state = stateAfter report := h l _ l' hrun trivial
  rw [hstate, stateAfter_eq_failed_iff]

theorem marking_noting {op : LinkOp σ α} (h : Obeys sameState op) :
    Upholds (marking K) (noting op) := by
  intro l got l' hrun hl
  have hsame := h l
  rw [noting] at hrun
  generalize op l = answer at hrun hsame
  obtain ⟨first, l₁⟩ := answer
  have hstate : l₁.state = l.state := hsame
  cases first with
  | ok a =>
    cases hrun
    have hK : K l'.state := by
      rw [hstate]
      exact hl
    exact hK
  | error stop =>
    cases stop with
    | failed report =>
      cases hrun
      exact state_note l₁ report
    | stalled =>
      cases hrun
      trivial

theorem marking_ensureUsable : Upholds (marking K) (ensureUsable b) := by
  intro l got l' hrun hl
  by_cases hf : l.state = .failed
  · rw [ensureUsable_failed hf] at hrun
    cases hrun
    exact hf
  · rw [ensureUsable, Op.bind_ok (Op.get_apply l), if_neg hf] at hrun
    exact marking_noting (obeys_checkAlive b awaits_sameState.moves) l got l' hrun hl

theorem marking_execute (command : String) : Upholds (marking K) (execute b command) :=
  marking_ensureUsable.bind fun _ => (upholds_dropInbox keptByPeers_marking).bind fun _ =>
    marking_noting (obeys_command b awaits_sameState command)

theorem marking_eval (hK : K .evaluating) (form : String) :
    Upholds (marking K) (eval b form) := by
  have hwrite : Upholds (marking K) (noting (writeStdin b form)) :=
    marking_noting (obeys_writeStdin b awaits_sameState.moves form)
  refine marking_ensureUsable.bind fun _ => (upholds_dropOutput keptByPeers_marking).bind fun _ =>
    (upholds_dropInbox keptByPeers_marking).bind fun _ => hwrite.bind fun _ => ?_
  exact (Op.upholds_modify fun _ _ => hK).bind fun _ => Op.upholds_get.bind fun _ =>
    Op.upholds_pure _

theorem marking_resetToTopLevel (hK : K .idle) : Upholds (marking K) (resetToTopLevel b) := by
  have hwrite : Upholds (marking K) (noting (writeStdin b topLevelCommand)) :=
    marking_noting (obeys_writeStdin b awaits_sameState.moves topLevelCommand)
  exact marking_ensureUsable.bind fun _ => (upholds_dropOutput keptByPeers_marking).bind fun _ =>
    hwrite.bind fun _ => Op.upholds_modify fun _ _ => hK

theorem recorded_eval (form : String) : Recorded (eval b form) :=
  recorded_of_marking (marking_eval trivial form)

theorem recorded_execute (command : String) : Recorded (execute b command) :=
  recorded_of_marking (marking_execute command)

theorem recorded_resetToTopLevel : Recorded (resetToTopLevel b) :=
  recorded_of_marking (marking_resetToTopLevel trivial)

theorem returns_eval (form : String) :
    Op.Returns (fun e => e.finished = false) (eval b form) :=
  Op.returns_bind fun _ => Op.returns_bind fun _ => Op.returns_bind fun _ =>
    Op.returns_bind fun _ => Op.returns_bind fun _ => Op.returns_bind fun _ => Op.returns_pure rfl

end

section

variable {α : Type} {b : Behaviour σ}

theorem keptByPeers_losing : KeptByPeers (losing : Contract (Link σ) Report) := fun _ _ hl => hl

theorem losing_noting {op : LinkOp σ α} (h : Upholds losing op) : Upholds losing (noting op) := by
  intro l got l' hrun hl
  rw [noting] at hrun
  cases hop : op l with
  | mk first l₁ =>
    have hfirst := h l first l₁ hop hl
    rw [hop] at hrun
    cases first with
    | ok a =>
      cases hrun
      trivial
    | error stop =>
      cases stop with
      | failed report =>
        cases hrun
        exact hfirst
      | stalled =>
        cases hrun
        trivial

theorem losing_checkAlive : Upholds losing (checkAlive b) := by
  refine (upholds_modifyPeer keptByPeers_losing _).bind fun _ => Op.upholds_get.bind fun l => ?_
  cases hloss : l.peer.loss? with
  | none => exact Op.upholds_pure ()
  | some report => exact Op.upholds_fail fun _ _ => Peer.fatal_of_loss? hloss

theorem losing_ensureUsable : Upholds losing (ensureUsable b) := by
  refine Op.upholds_get.bind fun l => ?_
  split
  · exact (Op.upholds_fail fun _ _ => rfl).bind fun _ => losing_noting losing_checkAlive
  · exact losing_noting losing_checkAlive

theorem losing_writeStdin (text : String) : Upholds losing (writeStdin b text) := by
  refine Op.upholds_get.bind fun l => ?_
  cases l.peer.write b .stdin (Text.trim text) with
  | ok peer => exact Op.upholds_modify fun _ hl => hl
  | error reason => exact losing_checkAlive.bind fun _ => Op.upholds_fail fun _ _ => rfl

theorem losing_resetToTopLevel : Upholds losing (resetToTopLevel b) :=
  losing_ensureUsable.bind fun _ => (upholds_dropOutput keptByPeers_losing).bind fun _ =>
    (losing_noting (losing_writeStdin _)).bind fun _ => Op.upholds_modify fun _ hl => hl

theorem losing_writeSocket (text : String) : Upholds losing (writeSocket b text) := by
  refine Op.upholds_get.bind fun l => ?_
  cases l.peer.write b .socket (Text.trim text) with
  | ok peer => exact Op.upholds_modify fun _ hl => hl
  | error reason => exact Op.upholds_fail fun _ _ => rfl

theorem losing_awaitFrame : Upholds losing (awaitFrame : LinkOp σ (List UInt8)) := by
  rintro l _ _ ⟨⟩ -
  cases hp : l.peer.awaitFrame l.peer.coming with
  | mk got q =>
    cases got with
    | ok payload => trivial
    | error stop =>
      cases stop with
      | stalled => trivial
      | failed report => exact Peer.fatal_of_awaitFrame hp

theorem losing_outputToToken (splitter : Splitter) (text : String) :
    Upholds losing (outputToToken splitter text : LinkOp σ String) := by
  intro l got l' hrun hl
  obtain ⟨rfl, rfl⟩ := Prod.ext_iff.1 hrun
  fun_induction outputToToken splitter text l with
  | case1 => trivial
  | case2 splitter text l piece peer hp split splitter' hpush text' hfound ih =>
    exact ih trivial rfl
  | case3 splitter text l stop peer hp =>
    cases stop with
    | stalled => trivial
    | failed report => exact Peer.fatal_of_awaitPiece hp

theorem losing_readOutcome (deferring : Bool) :
    Upholds losing (readOutcome deferring : LinkOp σ Outcome) := by
  refine losing_awaitFrame.bind fun payload => ?_
  cases tagOf payload with
  | result => exact losing_awaitFrame.bind fun _ => Op.upholds_pure _
  | error =>
    cases deferring with
    | true => exact Op.upholds_pure _
    | false => exact losing_awaitFrame.bind fun _ => Op.upholds_get.bind fun _ => Op.upholds_pure _
  | abort => exact Op.upholds_pure _
  | unknown => exact Op.upholds_fail fun _ _ => rfl

theorem losing_fetchCallStack (depth : Nat) : Upholds losing (fetchCallStack b depth) :=
  (upholds_dropOutput keptByPeers_losing).bind fun _ =>
    (upholds_dropInbox keptByPeers_losing).bind fun _ => (losing_writeSocket _).bind fun _ =>
      Op.upholds_get.bind fun _ => (losing_outputToToken _ _).bind fun _ =>
        (losing_readOutcome true).bind fun _ => (losing_writeSocket _).bind fun _ =>
          Op.upholds_pure _

theorem resetToTopLevel_idle {l l' : Link σ} (h : resetToTopLevel b l = (.ok (), l')) :
    l'.state = .idle := by
  simp only [resetToTopLevel, Op.bind_eq_ok] at h
  obtain ⟨_, l₁, -, _, l₂, -, _, l₃, -, hset⟩ := h
  cases hset
  rfl

end

end Link

namespace Evaluation

variable {b : Behaviour σ} {e e' : Evaluation} {l l' : Link σ} {report : Report}

theorem state_of_next_failed (h : e.next b l = (.failed report, e', l')) :
    l'.state = Link.stateAfter report := by
  fun_induction next b e l with
  | case1 => cases h
  | case2 => cases h
  | case3 e l hq hf e₁ l₁ ha ih => exact ih h
  | case4 e l hq hf report' l₁ ha =>
    cases h
    exact Link.state_note l₁ report
  | case5 => cases h

theorem recorded_next (h : e.next b l = (.failed report, e', l')) :
    l'.state = .failed ↔ report.fatal = true := by
  rw [state_of_next_failed h, Link.stateAfter_eq_failed_iff]

theorem state_of_rest_failed {items : List EvalItem}
    (h : e.rest b l = (items, .error (.failed report), l')) :
    l'.state = Link.stateAfter report := by
  fun_induction rest b e l generalizing items with
  | case1 e l item e₁ l₁ hn items' answer l₂ hr ih =>
    cases h
    exact ih hr
  | case2 e l report' e₁ l₁ hn =>
    cases h
    exact state_of_next_failed hn
  | case3 => cases h
  | case4 => cases h

def Settled (e : Evaluation) (l : Link σ) : Prop := e.finished = true → l.state = .idle

theorem settled_settleOutcome (h : e.settleOutcome b l = (.ok e', l')) : e'.Settled l' := by
  simp only [settleOutcome, Op.bind_eq_ok] at h
  obtain ⟨outcome, l₁, -, hset⟩ := h
  split at hset
  · exact absurd hset (raise_ne_ok b)
  · simp only [Op.bind_eq_ok] at hset
    obtain ⟨_, l₂, hmodify, hpure⟩ := hset
    cases hmodify
    cases hpure
    exact fun _ => rfl

theorem settled_advance (hf : e.finished = false) (h : e.advance b l = (.ok e', l')) :
    e'.Settled l' := by
  simp only [advance, Op.bind_eq_ok] at h
  obtain ⟨piece, l₁, -, _, l₂, -, hend⟩ := h
  split at hend
  · exact settled_settleOutcome hend
  · cases hend
    intro hfinished
    rw [hf] at hfinished
    cases hfinished

theorem settled_next {next : Next} (hs : e.Settled l) (h : e.next b l = (next, e', l')) :
    (∀ item, next = .item item → e'.Settled l') ∧ (next = .ended → l'.state = .idle) := by
  fun_induction Evaluation.next b e l with
  | case1 e l item rest hq =>
    cases h
    exact ⟨fun _ _ => hs, by simp⟩
  | case2 e l hq hf =>
    cases h
    exact ⟨by simp, fun _ => hs hf⟩
  | case3 e l hq hf e₁ l₁ ha ih => exact ih (settled_advance (by simpa using hf) ha) h
  | case4 =>
    cases h
    simp
  | case5 =>
    cases h
    simp

theorem idle_of_rest {items : List EvalItem} (hs : e.Settled l)
    (h : e.rest b l = (items, .ok (), l')) : l'.state = .idle := by
  fun_induction rest b e l generalizing items with
  | case1 e l item e₁ l₁ hn items' answer l₂ hr ih =>
    cases h
    exact ih ((settled_next hs hn).1 item rfl) hr
  | case2 => cases h
  | case3 => cases h
  | case4 e l e₁ l₁ hn =>
    cases h
    exact (settled_next hs hn).2 rfl

end Evaluation

end SlimeServer
