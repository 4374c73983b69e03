import SlimeServer.Evaluator.Link
/-!
# Evaluations

An evaluation is followed item by item: printed text, then at most one result, then the mark of
its end. Following it stops at the first failure. Whatever a piece of output held before the
failure it led to is not handed out.
-/
namespace SlimeServer

inductive EvalItem where
  | text (text : String)
  | result (value : Sexp) (printed : String)
  | complete
  deriving DecidableEq, Repr

/-- An evaluation that is being followed. With `deferring`, an error ends it quietly; with
`marked`, the mark of its end is handed out. -/
structure Evaluation where
  deferring : Bool
  marked : Bool
  splitter : Splitter
  queued : List EvalItem
  finished : Bool
  deriving DecidableEq, Repr

inductive Next where
  | item (item : EvalItem)
  | failed (report : Report)
  | stalled
  | ended
  deriving DecidableEq, Repr

namespace Evaluation

variable {σ : Type}

def start (l : Link σ) (deferring marked : Bool) : Evaluation :=
  ⟨deferring, marked, .start l.token, [], false⟩

def textItems (text : String) : List EvalItem :=
  if text = "" then [] else [.text text]

def outcomeItems : Outcome → List EvalItem
  | .result value printed => [.result value printed]
  | _ => []

def conclude (e : Evaluation) (outcome : Outcome) : Evaluation :=
  { e with
    queued := e.queued ++ outcomeItems outcome ++ if e.marked then [.complete] else []
    finished := true }

@[simp] theorem conclude_finished (e : Evaluation) (outcome : Outcome) :
    (e.conclude outcome).finished = true := rfl

section

variable (b : Behaviour σ)

/-- What follows the token: the outcome is read, and an error becomes a failure. -/
def settleOutcome (e : Evaluation) : LinkOp σ Evaluation := do
  match ← Link.readOutcome e.deferring with
  | .error message => Link.raise b message
  | outcome =>
    Op.modify fun l => { l with state := .idle }
    return e.conclude outcome

/-- Takes one piece of output and, after the token, the outcome. -/
def advance (e : Evaluation) : LinkOp σ Evaluation := do
  let piece ← Link.awaitPiece
  let (split, splitter) := e.splitter.push piece
  let text := (← Op.get).clean split.text
  let e := { e with splitter := splitter, queued := e.queued ++ textItems text }
  if split.found then e.settleOutcome b else return e

def remaining (e : Evaluation) (l : Link σ) : Nat :=
  if e.finished then 0 else l.peer.supply + 1

theorem raise_ne_ok {α : Type} {message : String} {l l' : Link σ} {a : α} :
    Link.raise b message l ≠ (.ok a, l') := by
  intro h
  simp only [Link.raise, Op.bind_eq_ok] at h
  obtain ⟨_, _, _, _, _, _, h⟩ := h
  simp at h

theorem settleOutcome_finished {e e' : Evaluation} {l l' : Link σ}
    (h : e.settleOutcome b l = (.ok e', l')) : e'.finished = true := by
  simp only [settleOutcome, Op.bind_eq_ok] at h
  obtain ⟨outcome, _, _, h⟩ := h
  split at h
  · exact absurd h (raise_ne_ok b)
  · simp only [Op.bind_eq_ok, Op.modify_apply, Op.pure_apply, Prod.mk.injEq] at h
    obtain ⟨_, _, _, h, _⟩ := h
    cases h
    rfl

/-- Every step of an evaluation uses up something. -/
theorem advance_remaining {e e' : Evaluation} {l l' : Link σ} (hf : e.finished = false)
    (h : e.advance b l = (.ok e', l')) : e'.remaining l' < e.remaining l := by
  simp only [advance, Op.bind_eq_ok] at h
  obtain ⟨piece, l₁, hp, _, _, hg, h⟩ := h
  simp only [Op.get_apply, Prod.mk.injEq, Except.ok.injEq] at hg
  obtain ⟨rfl, rfl⟩ := hg
  split at h
  · have := settleOutcome_finished b h
    simp [remaining, this, hf]
  · simp only [Op.pure_apply, Prod.mk.injEq, Except.ok.injEq] at h
    obtain ⟨rfl, rfl⟩ := h
    simp only [Link.awaitPiece] at hp
    generalize hq : l.peer.awaitPiece l.peer.coming = answer at hp
    obtain ⟨got, peer⟩ := answer
    simp only [Prod.mk.injEq] at hp
    obtain ⟨rfl, rfl⟩ := hp
    have := Peer.awaitPiece_supply hq
    simp only [remaining, hf, Peer.supply, Bool.false_eq_true, if_false] at this ⊢
    omega

def next (e : Evaluation) (l : Link σ) : Next × Evaluation × Link σ :=
  match e.queued with
  | item :: rest => (.item item, { e with queued := rest }, l)
  | [] =>
    if _hf : e.finished then (.ended, e, l)
    else match _h : e.advance b l with
      | (.ok e', l') => next e' l'
      | (.error (.failed report), l') =>
        (.failed report, { e with queued := [], finished := true }, l'.note report)
      | (.error .stalled, l') => (.stalled, e, l')
termination_by e.remaining l
decreasing_by exact advance_remaining b (by simpa using _hf) _h

/-- An item that was queued, or that a step brought: either way less is left. -/
theorem next_remaining {e e' : Evaluation} {l l' : Link σ} {item : EvalItem}
    (h : e.next b l = (.item item, e', l')) :
    e'.remaining l' < e.remaining l ∨
      (e'.remaining l' = e.remaining l ∧ e'.queued.length < e.queued.length) := by
  fun_induction next b e l with
  | case1 e l head rest hq =>
    simp only [Prod.mk.injEq, Next.item.injEq] at h
    obtain ⟨-, rfl, rfl⟩ := h
    exact .inr ⟨rfl, by simp [hq]⟩
  | case2 => simp at h
  | case3 e l _ hf e₁ l₁ ha ih =>
    have hstep := advance_remaining b (by simpa using hf) ha
    rcases ih h with h' | ⟨h', -⟩
    · exact .inl (by omega)
    · exact .inl (by omega)
  | case4 => simp at h
  | case5 => simp at h

/-- All further items, and how following the evaluation comes out: with its end, a failure, or a
wait for ever. -/
def rest (e : Evaluation) (l : Link σ) : List EvalItem × Except (Stop Report) Unit × Link σ :=
  match _h : e.next b l with
  | (.item item, e', l') =>
    let (items, answer, l') := rest e' l'
    (item :: items, answer, l')
  | (.failed report, _, l') => ([], .error (.failed report), l')
  | (.stalled, _, l') => ([], .error .stalled, l')
  | (.ended, _, l') => ([], .ok (), l')
termination_by (e.remaining l, e.queued.length)
decreasing_by
  rcases next_remaining b _h with h | ⟨h, h'⟩
  · exact Prod.Lex.left _ _ h
  · rw [h]
    exact Prod.Lex.right _ h'

def take (count : Nat) (e : Evaluation) (l : Link σ) :
    List EvalItem × Except (Stop Report) Unit × Link σ :=
  match count with
  | 0 => ([], .ok (), l)
  | count + 1 =>
    match e.next b l with
    | (.item item, e', l') =>
      let (items, answer, l') := take count e' l'
      (item :: items, answer, l')
    | (.failed report, _, l') => ([], .error (.failed report), l')
    | (.stalled, _, l') => ([], .error .stalled, l')
    | (.ended, _, l') => ([], .ok (), l')

end

end Evaluation

namespace Link

variable {σ : Type}

def eval (b : Behaviour σ) (form : String) : LinkOp σ Evaluation := do
  ensureUsable b
  dropOutput b
  dropInbox b
  noting (writeStdin b form)
  Op.modify fun l => { l with state := .evaluating }
  return .start (← Op.get) false true

def consume (deferring : Bool) : LinkOp σ Evaluation := do
  return .start (← Op.get) deferring false

end Link
end SlimeServer
