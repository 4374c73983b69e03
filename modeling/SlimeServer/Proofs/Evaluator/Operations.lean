import SlimeServer.Evaluator.Evaluation
import SlimeServer.Proofs.Evaluator.Lines
import SlimeServer.Proofs.Operation
/-!
# Laws of the link's operations

Everything that an operation of the link does is put together from a few steps: the evaluator does
something, a line is written to it, more is waited for, and the state of the link is set. A law that
these obey is obeyed by every operation.
-/
namespace SlimeServer

variable {σ : Type}

def Peer.Silent (p : Peer σ) : Prop := p.loss? = none ∧ p.coming = []

theorem Peer.silent_of_awaitPiece {p q : Peer σ} {coming : List Moment}
    (h : p.awaitPiece coming = (.error .stalled, q)) : q.Silent := by
  fun_induction awaitPiece p coming with
  | case1 p coming head rest hq => simp at h
  | case2 p hq ho =>
    cases hl : p.loss? with
    | some report => simp [hl] at h
    | none =>
      simp only [hl, Option.elim_none, Prod.mk.injEq, true_and] at h
      exact h ▸ ⟨hl, rfl⟩
  | case3 => simp at h
  | case4 p hq ho later hl ih => exact ih h
  | case5 p hq ho moment later hm ih => exact ih h
  | case6 => simp at h

theorem Peer.silent_of_awaitFrame {p q : Peer σ} {coming : List Moment}
    (h : p.awaitFrame coming = (.error .stalled, q)) : q.Silent := by
  fun_induction awaitFrame p coming with
  | case1 => simp at h
  | case2 => simp at h
  | case3 => simp at h
  | case4 p hr hl =>
    simp only [Prod.mk.injEq, true_and] at h
    exact h ▸ ⟨hl, rfl⟩
  | case5 => simp at h
  | case6 p hr later hl ih => exact ih h
  | case7 p hr moment later hm ih => exact ih h

namespace Link

open Op (Obeys)

def Moves (R : Law (Link σ)) : Prop := ∀ l peer, R.holds l false { l with peer := peer }

structure Awaits (R : Law (Link σ)) : Prop where
  moves : Moves R
  waits : ∀ l peer, peer.Silent → R.holds l true { l with peer := peer }

structure LinkSteps (R : Law (Link σ)) : Prop extends Awaits R where
  states : ∀ l state, R.holds l false { l with state := state }

structure MovesWriting (R : Law (Link σ)) (P : Channel × String → Prop) : Prop where
  quiet : ∀ l peer, peer.sent = l.peer.sent → R.holds l false { l with peer := peer }
  wrote : ∀ l peer line, P line → peer.sent = l.peer.sent ++ [line] →
    R.holds l false { l with peer := peer }

structure AwaitsWriting (R : Law (Link σ)) (P : Channel × String → Prop) : Prop
    extends MovesWriting R P where
  waits : ∀ l peer, peer.Silent → peer.sent = l.peer.sent → R.holds l true { l with peer := peer }
  asks : ∀ depth, P (.socket, Text.trim (callStackCommand depth))
  leaves : P (.socket, Text.trim resetLevelCommand)

variable {α : Type} {R : Law (Link σ)} {P : Channel × String → Prop}

theorem Moves.free (h : Moves R) : MovesWriting R fun _ => True where
  quiet l peer _ := h l peer
  wrote l peer _ _ _ := h l peer

theorem Awaits.free (h : Awaits R) : AwaitsWriting R fun _ => True where
  toMovesWriting := h.moves.free
  waits l peer hsilent _ := h.waits l peer hsilent
  asks _ := trivial
  leaves := trivial

theorem obeys_noting (hstates : ∀ l state, R.holds l false { l with state := state })
    {op : LinkOp σ α} (hop : Obeys R op) : Obeys R (noting op) := by
  intro l
  have hl := hop l
  rw [noting]
  generalize op l = answer at hl
  obtain ⟨got, l'⟩ := answer
  cases got with
  | ok a => exact hl
  | error stop =>
    cases stop with
    | failed report => exact R.trans hl (hstates l' _)
    | stalled => exact hl

namespace MovesWriting

variable {b : Behaviour σ} (h : MovesWriting R P)
include h

theorem modifyPeer {f : Peer σ → Peer σ} (hf : ∀ p, (f p).sent = p.sent) :
    Obeys R (modifyPeer f : LinkOp σ Unit) :=
  Op.obeys_modify fun l => h.quiet l (f l.peer) (hf l.peer)

theorem look : Obeys R (look b) := h.modifyPeer fun p => p.sent_act b .look

theorem checkAlive : Obeys R (checkAlive b) := by
  refine h.look.bind fun _ => Op.obeys_get.bind fun l => ?_
  cases l.peer.loss? with
  | none => exact Op.obeys_pure ()
  | some report => exact Op.obeys_fail report

theorem ensureUsable (hstates : ∀ l state, R.holds l false { l with state := state }) :
    Obeys R (ensureUsable b) := by
  have halive := obeys_noting hstates (h.checkAlive (b := b))
  refine Op.obeys_get.bind fun l => ?_
  split
  · exact (Op.obeys_fail _).bind fun _ => halive
  · exact halive

theorem dropOutput : Obeys R (dropOutput b) := h.look.bind fun _ => h.modifyPeer fun _ => rfl

theorem dropInbox : Obeys R (dropInbox b) := h.look.bind fun _ => h.modifyPeer fun _ => rfl

theorem writeStdin {text : String} (htext : P (.stdin, Text.trim text)) :
    Obeys R (writeStdin b text) := by
  intro l
  cases hwrite : l.peer.write b .stdin (Text.trim text) with
  | ok q =>
    rw [writeStdin_ok hwrite]
    exact h.wrote l q _ htext (Peer.sent_of_write hwrite)
  | error reason =>
    obtain ⟨report, hfails⟩ := writeStdin_error hwrite
    rw [hfails]
    exact h.look l

theorem writeSocket {text : String} (htext : P (.socket, Text.trim text)) :
    Obeys R (writeSocket b text) := by
  intro l
  cases hwrite : l.peer.write b .socket (Text.trim text) with
  | ok q =>
    rw [writeSocket_ok hwrite]
    exact h.wrote l q _ htext (Peer.sent_of_write hwrite)
  | error reason =>
    obtain ⟨report, hfails⟩ := writeSocket_error hwrite
    rw [hfails]
    exact R.refl l

end MovesWriting

namespace AwaitsWriting

variable {b : Behaviour σ} (h : AwaitsWriting R P)
include h

theorem awaitPiece : Obeys R (awaitPiece : LinkOp σ (List UInt8)) := by
  intro l
  have hsent := (Peer.waited_awaitPiece l.peer l.peer.coming).sent
  cases hp : l.peer.awaitPiece l.peer.coming with
  | mk got q =>
    rw [hp] at hsent
    simp only [Link.awaitPiece, hp]
    cases got with
    | ok piece => exact h.quiet l q hsent
    | error stop =>
      cases stop with
      | failed report => exact h.quiet l q hsent
      | stalled => exact h.waits l q (Peer.silent_of_awaitPiece hp) hsent

theorem awaitFrame : Obeys R (awaitFrame : LinkOp σ (List UInt8)) := by
  intro l
  have hsent := (Peer.waited_awaitFrame l.peer l.peer.coming).sent
  cases hp : l.peer.awaitFrame l.peer.coming with
  | mk got q =>
    rw [hp] at hsent
    simp only [Link.awaitFrame, hp]
    cases got with
    | ok payload => exact h.quiet l q hsent
    | error stop =>
      cases stop with
      | failed report => exact h.quiet l q hsent
      | stalled => exact h.waits l q (Peer.silent_of_awaitFrame hp) hsent

theorem readOutcome (deferring : Bool) :
    Obeys R (readOutcome deferring : LinkOp σ Outcome) := by
  refine h.awaitFrame.bind fun payload => ?_
  cases tagOf payload with
  | result => exact h.awaitFrame.bind fun _ => Op.obeys_pure _
  | error =>
    cases deferring with
    | true => exact Op.obeys_pure _
    | false =>
      exact h.awaitFrame.bind fun _ => Op.obeys_get.bind fun _ => Op.obeys_pure _
  | abort => exact Op.obeys_pure _
  | unknown => exact Op.obeys_fail _

theorem outputToToken (splitter : Splitter) (text : String) :
    Obeys R (outputToToken splitter text : LinkOp σ String) := by
  intro l
  have hpiece (l : Link σ) := h.awaitPiece l
  fun_induction Link.outputToToken splitter text l with
  | case1 splitter text l piece peer hp =>
    have hl := hpiece l
    simp only [Link.awaitPiece, hp] at hl
    exact hl
  | case2 splitter text l piece peer hp split splitter' hpush text' hfound ih =>
    have hl := hpiece l
    simp only [Link.awaitPiece, hp] at hl
    exact R.trans hl ih
  | case3 splitter text l stop peer hp =>
    have hl := hpiece l
    simp only [Link.awaitPiece, hp] at hl
    cases stop <;> exact hl

theorem fetchCallStack (depth : Nat) : Obeys R (fetchCallStack b depth) := by
  refine h.dropOutput.bind fun _ => h.dropInbox.bind fun _ =>
    (h.writeSocket (h.asks depth)).bind fun _ => Op.obeys_get.bind fun l => ?_
  exact (h.outputToToken _ _).bind fun dump => (h.readOutcome true).bind fun _ =>
    (h.writeSocket h.leaves).bind fun _ => Op.obeys_pure _

theorem raise (message : String) : Obeys R (raise b message : LinkOp σ α) :=
  Op.obeys_get.bind fun _ => (h.fetchCallStack _).bind fun _ => Op.obeys_fail _

theorem respond : Obeys R (do
    match ← Link.readOutcome false with
    | .result value _ => return value
    | .abort | .deferred => return .nil
    | .error message => Link.raise b message : LinkOp σ Sexp) := by
  refine (h.readOutcome false).bind fun outcome => ?_
  cases outcome with
  | error message => exact h.raise message
  | _ => exact Op.obeys_pure _

variable (hstates : ∀ l state, R.holds l false { l with state := state })
include hstates

theorem settleOutcome (e : Evaluation) : Obeys R (e.settleOutcome b) := by
  refine (h.readOutcome _).bind fun outcome => ?_
  cases outcome with
  | error message => exact h.raise message
  | _ => exact (Op.obeys_modify fun l => hstates l _).bind fun _ => Op.obeys_pure _

theorem advance (e : Evaluation) : Obeys R (e.advance b) := by
  refine h.awaitPiece.bind fun piece => ?_
  generalize e.splitter.push piece = pushed
  obtain ⟨split, splitter⟩ := pushed
  refine Op.obeys_get.bind fun l => ?_
  cases split.found with
  | false => exact Op.obeys_pure _
  | true => exact h.settleOutcome hstates _

end AwaitsWriting

variable (b : Behaviour σ)

theorem obeys_checkAlive (h : Moves R) : Obeys R (checkAlive b) := h.free.checkAlive

theorem obeys_writeStdin (h : Moves R) (text : String) : Obeys R (writeStdin b text) :=
  h.free.writeStdin trivial

theorem obeys_command (h : Awaits R) (command : String) : Obeys R (do
    writeSocket b command
    match ← readOutcome false with
    | .result value _ => return value
    | .abort | .deferred => return .nil
    | .error message => raise b message : LinkOp σ Sexp) :=
  (h.free.writeSocket trivial).bind fun _ => h.free.respond

section

variable (h : LinkSteps R)
include h

theorem obeys_execute (command : String) : Obeys R (execute b command) :=
  (h.free.ensureUsable h.states).bind fun _ => h.free.dropInbox.bind fun _ =>
    obeys_noting h.states (obeys_command b h.toAwaits command)

theorem obeys_resetToTopLevel : Obeys R (resetToTopLevel b) :=
  (h.free.ensureUsable h.states).bind fun _ => h.free.dropOutput.bind fun _ =>
    (obeys_noting h.states (obeys_writeStdin b h.moves _)).bind fun _ =>
      Op.obeys_modify fun l => h.states l _

theorem obeys_eval (form : String) : Obeys R (eval b form) := by
  refine (h.free.ensureUsable h.states).bind fun _ => h.free.dropOutput.bind fun _ =>
    h.free.dropInbox.bind fun _ =>
      (obeys_noting h.states (obeys_writeStdin b h.moves form)).bind fun _ => ?_
  exact (Op.obeys_modify fun l => h.states l _).bind fun _ => Op.obeys_get.bind fun _ =>
    Op.obeys_pure _

theorem obeys_advance (e : Evaluation) : Obeys R (e.advance b) := h.free.advance h.states e

end

end Link

end SlimeServer
