import SlimeServer.Evaluator.Evaluation
/-!
# What earlier operations left over

Output that is queued and bytes on the socket that nobody took are never seen by a later operation.
Every operation is compared with itself over the same link without some of these leftovers: it
brings the same, and the two links still differ in nothing but leftovers. Which of the two kinds
may still differ shrinks whenever an operation drops one of them.
-/
namespace SlimeServer

structure Leftovers where
  queue : Bool
  inbox : Bool
  deriving DecidableEq, Repr

namespace Leftovers

def none : Leftovers := ⟨false, false⟩

def all : Leftovers := ⟨true, true⟩

end Leftovers

variable {σ : Type}

namespace Peer

def without (d : Leftovers) (p : Peer σ) : Peer σ :=
  { p with queue := if d.queue then [] else p.queue, inbox := if d.inbox then [] else p.inbox }

variable (d : Leftovers) (p : Peer σ)

@[simp] theorem without_without : (p.without d).without d = p.without d := by
  cases d with
  | mk queue inbox => cases queue <;> cases inbox <;> rfl

@[simp] theorem without_all_without : (p.without d).without .all = p.without .all := by
  cases d with
  | mk queue inbox => cases queue <;> cases inbox <;> rfl

/-- What happens does not depend on leftovers, and is the same apart from them. -/
theorem happen_without (m : Moment) :
    ((p.without d).happen m).without d = (p.happen m).without d := by
  obtain ⟨queue, inbox⟩ := d
  cases m with
  | output piece =>
    by_cases ho : p.queueOpen = true
    · have ho' : (p.without ⟨queue, inbox⟩).queueOpen = true := ho
      rw [happen, happen, if_pos ho, if_pos ho']
      cases queue <;> cases inbox <;> rfl
    · have ho' : ¬ (p.without ⟨queue, inbox⟩).queueOpen = true := ho
      rw [happen, happen, if_neg ho, if_neg ho', without_without]
  | received piece =>
    by_cases hs : p.socketEnd.isSome = true
    · have hs' : (p.without ⟨queue, inbox⟩).socketEnd.isSome = true := hs
      rw [happen, happen, if_pos hs, if_pos hs', without_without]
    · have hs' : ¬ (p.without ⟨queue, inbox⟩).socketEnd.isSome = true := hs
      rw [happen, happen, if_neg hs, if_neg hs']
      cases queue <;> cases inbox <;> rfl
  | _ => cases queue <;> cases inbox <;> rfl

theorem happenAll_without (moments : List Moment) :
    (moments.foldl happen (p.without d)).without d = (moments.foldl happen p).without d := by
  induction moments generalizing p with
  | nil => exact without_without d p
  | cons m rest ih =>
    rw [List.foldl_cons, List.foldl_cons, ← ih (p.happen m), ← ih ((p.without d).happen m),
      happen_without]

theorem act_without (b : Behaviour σ) (a : Act) :
    ((p.without d).act b a).without d = (p.act b a).without d := by
  simp only [act, elapse]
  exact happenAll_without d { p with
    memory := (b.react p.memory a).1
    coming := (p.coming ++ (b.react p.memory a).2.moments).drop (b.react p.memory a).2.elapse } _

theorem write_without (b : Behaviour σ) (channel : Channel) (text : String) :
    ((p.without d).write b channel text).map (without d) =
      (p.write b channel text).map (without d) := by
  have hfault : (p.without d).fault? channel = p.fault? channel := by
    cases channel <;> rfl
  rw [write, write, hfault]
  cases p.fault? channel with
  | some reason => rfl
  | none =>
    exact congrArg Except.ok (act_without d { p with sent := p.sent ++ [(channel, text)] } b _)

@[simp] theorem loss?_without : (p.without d).loss? = p.loss? := rfl

@[simp] theorem deliveries_without (queue : Bool) :
    (p.without ⟨queue, false⟩).deliveries = p.deliveries := rfl

/-- A frame is waited for without a look at the queued output. -/
theorem awaitFrame_without (queue : Bool) (coming : List Moment) :
    (p.awaitFrame coming).1 = ((p.without ⟨queue, false⟩).awaitFrame coming).1 ∧
      (p.awaitFrame coming).2.without ⟨queue, false⟩ =
        ((p.without ⟨queue, false⟩).awaitFrame coming).2.without ⟨queue, false⟩ := by
  induction coming generalizing p with
  | nil =>
    rw [awaitFrame.eq_def, awaitFrame.eq_def, deliveries_without, loss?_without]
    cases Frame.read p.deliveries with
    | done payload rest => cases queue <;> exact ⟨rfl, rfl⟩
    | failed error rest => cases queue <;> exact ⟨rfl, rfl⟩
    | starved => cases p.loss? <;> cases queue <;> exact ⟨rfl, rfl⟩
  | cons m later ih =>
    -- After a moment the two peers differ in the queue again, and in nothing else.
    have hlater : ((p.happen m).awaitFrame later).1 =
          (((p.without ⟨queue, false⟩).happen m).awaitFrame later).1 ∧
        ((p.happen m).awaitFrame later).2.without ⟨queue, false⟩ =
          (((p.without ⟨queue, false⟩).happen m).awaitFrame later).2.without ⟨queue, false⟩ := by
      obtain ⟨h₁, h₂⟩ := ih (p.happen m)
      obtain ⟨h₃, h₄⟩ := ih ((p.without ⟨queue, false⟩).happen m)
      rw [happen_without] at h₃ h₄
      exact ⟨h₁.trans h₃.symm, h₂.trans h₄.symm⟩
    rw [awaitFrame.eq_def, awaitFrame.eq_def, deliveries_without, loss?_without]
    cases Frame.read p.deliveries with
    | done payload rest => cases queue <;> exact ⟨rfl, rfl⟩
    | failed error rest => cases queue <;> exact ⟨rfl, rfl⟩
    | starved =>
      cases m with
      | tick =>
        cases p.loss? with
        | none => exact hlater
        | some report => cases queue <;> exact ⟨rfl, rfl⟩
      | _ => exact hlater

end Peer

namespace Link

def without (d : Leftovers) (l : Link σ) : Link σ := { l with peer := l.peer.without d }

@[simp] theorem without_without (d : Leftovers) (l : Link σ) :
    (l.without d).without d = l.without d :=
  congrArg (fun peer => { l with peer := peer }) (l.peer.without_without d)

@[simp] theorem without_all_without (d : Leftovers) (l : Link σ) :
    (l.without d).without .all = l.without .all :=
  congrArg (fun peer => { l with peer := peer }) (l.peer.without_all_without d)

variable {α β : Type} {d d' d'' : Leftovers}

/-- The leftovers that count for nothing after an operation. One that does not return may leave
both kinds. -/
def leaving (d : Leftovers) : Except (Stop Report) α → Leftovers
  | .ok _ => d
  | .error _ => .all

def Agree (d : Leftovers) (x y : Except (Stop Report) α × Link σ) : Prop :=
  x.1 = y.1 ∧ x.2.without (leaving d x.1) = y.2.without (leaving d x.1)

theorem without_all_of {l l' : Link σ} (h : l.without d = l'.without d) :
    l.without .all = l'.without .all := by
  rw [← without_all_without d l, h, without_all_without]

theorem seen_of_without {l l' : Link σ} (h : l.without d = l'.without d) :
    l.peer.sent = l'.peer.sent ∧ l.state = l'.state := by
  have hsent := congrArg (fun l : Link σ => l.peer.sent) h
  have hstate := congrArg state h
  exact ⟨hsent, hstate⟩

theorem agree_of_without {x y : Except (Stop Report) α × Link σ} (hanswer : x.1 = y.1)
    (hlink : x.2.without d = y.2.without d) : Agree d x y := by
  refine ⟨hanswer, ?_⟩
  cases x.1 with
  | ok a => exact hlink
  | error stop => exact without_all_of hlink

theorem Agree.refl (x : Except (Stop Report) α × Link σ) : Agree d x x := ⟨rfl, rfl⟩

theorem Agree.symm {x y : Except (Stop Report) α × Link σ} (h : Agree d x y) : Agree d y x := by
  obtain ⟨hanswer, hlink⟩ := h
  exact ⟨hanswer.symm, hanswer ▸ hlink.symm⟩

theorem Agree.trans {x y z : Except (Stop Report) α × Link σ} (h : Agree d x y)
    (h' : Agree d y z) : Agree d x z := by
  obtain ⟨hanswer, hlink⟩ := h
  obtain ⟨hanswer', hlink'⟩ := h'
  rw [← hanswer] at hlink'
  exact ⟨hanswer.trans hanswer', hlink.trans hlink'⟩

/-- An operation that comes out the same with and without the leftovers `d`, up to the leftovers
`d'`. -/
def Blind (d d' : Leftovers) (op : LinkOp σ α) : Prop :=
  ∀ l, Agree d' (op l) (op (l.without d))

theorem Blind.bind {op : LinkOp σ α} {next : α → LinkOp σ β} (h : Blind d d' op)
    (hn : ∀ a, Blind d' d'' (next a)) : Blind d d'' (op >>= next) := by
  intro l
  have hl := h l
  rw [Op.bind_apply, Op.bind_apply]
  generalize op l = x at hl
  generalize op (l.without d) = y at hl
  obtain ⟨got, l₁⟩ := x
  obtain ⟨got', l₂⟩ := y
  obtain ⟨rfl, hlink⟩ := hl
  cases got with
  | error stop => exact ⟨rfl, hlink⟩
  | ok a =>
    have h₂ := hn a l₂
    rw [← show l₁.without d' = l₂.without d' from hlink] at h₂
    exact (hn a l₁).trans h₂.symm

theorem blind_none (op : LinkOp σ α) : Blind .none d op := fun l => Agree.refl (op l)

theorem blind_pure (a : α) : Blind d d (pure a : LinkOp σ α) :=
  fun l => ⟨rfl, (without_without d l).symm⟩

theorem blind_fail (report : Report) : Blind d d' (Op.fail report : LinkOp σ α) :=
  fun l => ⟨rfl, (without_all_without d l).symm⟩

theorem blind_modify {f : Link σ → Link σ}
    (h : ∀ l, (f l).without d' = (f (l.without d)).without d') :
    Blind d d' (Op.modify f) :=
  fun l => ⟨rfl, h l⟩

theorem blind_get {next : Link σ → LinkOp σ α} (hsame : ∀ l, next (l.without d) = next l)
    (h : ∀ l, Blind d d' (next l)) : Blind d d' (Op.get >>= next) := by
  intro l
  have hl := h l l
  rw [Op.bind_ok (Op.get_apply l), Op.bind_ok (Op.get_apply (l.without d)), hsame]
  exact hl

theorem Blind.forget {op : LinkOp σ α} (h : Blind d d' op) (l : Link σ) :
    (op l).1 = (op (l.without d)).1 ∧ (op l).2.without .all = (op (l.without d)).2.without .all :=
  ⟨(h l).1, without_all_of (h l).2⟩

theorem blind_noting {op : LinkOp σ α} (h : Blind d d' op) : Blind d d' (noting op) := by
  intro l
  have hl := h l
  rw [noting, noting]
  generalize op l = x at hl
  generalize op (l.without d) = y at hl
  obtain ⟨got, l₁⟩ := x
  obtain ⟨got', l₂⟩ := y
  obtain ⟨rfl, hlink⟩ := hl
  cases got with
  | ok a => exact ⟨rfl, hlink⟩
  | error stop =>
    cases stop with
    | stalled => exact ⟨rfl, hlink⟩
    | failed report => exact ⟨rfl, congrArg (fun l : Link σ => l.note report) hlink⟩

section

variable (b : Behaviour σ)

theorem blind_look : Blind d d (look b) :=
  blind_modify fun l => congrArg (fun peer => { l with peer := peer })
    (l.peer.act_without d b .look).symm

theorem blind_checkAlive : Blind d d (checkAlive b) := by
  refine (blind_look b).bind fun _ => blind_get (fun _ => rfl) fun l => ?_
  cases l.peer.loss? with
  | none => exact blind_pure ()
  | some report => exact blind_fail report

theorem blind_ensureUsable : Blind d d (ensureUsable b) := by
  refine blind_get (fun _ => rfl) fun l => ?_
  split
  · exact Blind.bind (blind_fail _) fun _ => blind_noting (blind_checkAlive b)
  · exact blind_noting (blind_checkAlive b)

theorem blind_dropOutput : Blind d ⟨false, d.inbox⟩ (dropOutput b) := by
  refine (blind_look b).bind fun _ => blind_modify fun l => ?_
  obtain ⟨queue, inbox⟩ := d
  cases queue <;> cases inbox <;> rfl

theorem blind_dropInbox : Blind d ⟨d.queue, false⟩ (dropInbox b) := by
  refine (blind_look b).bind fun _ => blind_modify fun l => ?_
  obtain ⟨queue, inbox⟩ := d
  cases queue <;> cases inbox <;> rfl

/-- A line is written whatever is left over, and what is done where it cannot be written decides. -/
theorem blind_write (channel : Channel) (text : String) {instead : String → LinkOp σ Unit}
    (h : ∀ reason, Blind d d (instead reason)) :
    Blind d d (Op.get >>= fun l => match l.peer.write b channel text with
      | .ok peer => Op.modify fun l => { l with peer := peer }
      | .error reason => instead reason) := by
  intro l
  rw [Op.bind_ok (Op.get_apply l), Op.bind_ok (Op.get_apply (l.without d))]
  have hwrite := l.peer.write_without d b channel text
  rw [show (l.without d).peer = l.peer.without d from rfl]
  generalize l.peer.write b channel text = x at hwrite
  generalize (l.peer.without d).write b channel text = y at hwrite
  cases x with
  | ok peer =>
    cases y with
    | error reason => cases hwrite
    | ok peer' =>
      have hpeer : peer'.without d = peer.without d := Except.ok.inj hwrite
      exact ⟨rfl, congrArg (fun peer => { l with peer := peer }) hpeer.symm⟩
  | error reason =>
    cases y with
    | ok peer' => cases hwrite
    | error reason' =>
      cases hwrite
      exact h reason l

theorem blind_writeStdin (text : String) : Blind d d (writeStdin b text) :=
  blind_write b .stdin _ fun _ => (blind_checkAlive b).bind fun _ => blind_fail _

theorem blind_writeSocket (text : String) : Blind d d (writeSocket b text) :=
  blind_write b .socket _ fun _ => blind_fail _

variable {queue : Bool}

theorem blind_awaitFrame :
    Blind ⟨queue, false⟩ ⟨queue, false⟩ (awaitFrame : LinkOp σ (List UInt8)) := by
  intro l
  obtain ⟨hanswer, hpeer⟩ := l.peer.awaitFrame_without queue l.peer.coming
  exact agree_of_without hanswer (congrArg (fun peer => { l with peer := peer }) hpeer)

theorem blind_readOutcome (deferring : Bool) :
    Blind ⟨queue, false⟩ ⟨queue, false⟩ (readOutcome deferring : LinkOp σ Outcome) := by
  refine blind_awaitFrame.bind fun payload => ?_
  cases tagOf payload with
  | result => exact blind_awaitFrame.bind fun _ => blind_pure _
  | error =>
    cases deferring with
    | true => exact blind_pure _
    | false =>
      exact blind_awaitFrame.bind fun _ => blind_get (fun _ => rfl) fun _ => blind_pure _
  | abort => exact blind_pure _
  | unknown => exact blind_fail _

theorem blind_fetchCallStack (depth : Nat) : Blind d d' (fetchCallStack b depth) :=
  (blind_dropOutput b).bind fun _ => (blind_dropInbox b).bind fun _ => blind_none _

theorem blind_raise (message : String) : Blind d d' (raise b message : LinkOp σ α) :=
  blind_get (fun _ => rfl) fun _ =>
    (blind_fetchCallStack b _).bind fun _ => blind_fail (d := .none) _

theorem blind_execute (command : String) : Blind d ⟨d.queue, false⟩ (execute b command) := by
  refine (blind_ensureUsable b).bind fun _ => (blind_dropInbox b).bind fun _ =>
    blind_noting ((blind_writeSocket b command).bind fun _ =>
      (blind_readOutcome false).bind fun outcome => ?_)
  cases outcome with
  | result value printed => exact blind_pure _
  | error message => exact blind_raise b message
  | abort => exact blind_pure _
  | deferred => exact blind_pure _

theorem blind_resetToTopLevel : Blind d ⟨false, d.inbox⟩ (resetToTopLevel b) :=
  (blind_ensureUsable b).bind fun _ => (blind_dropOutput b).bind fun _ =>
    (blind_noting (blind_writeStdin b _)).bind fun _ => blind_modify fun l =>
      congrArg (fun l : Link σ => { l with state := .idle })
        (without_without ⟨false, d.inbox⟩ l).symm

theorem blind_eval (form : String) : Blind d .none (eval b form) :=
  (blind_ensureUsable b).bind fun _ => (blind_dropOutput b).bind fun _ =>
    (blind_dropInbox b).bind fun _ => blind_none _

end

inductive Task where
  /-- An evaluation, followed to its end. -/
  | evaluate (form : String)
  | execute (command : String)
  | resetToTopLevel
  deriving DecidableEq, Repr

structure Performance where
  items : List EvalItem
  answer : Except (Stop Report) (Option Sexp)

section

variable (b : Behaviour σ)

def perform : Task → Link σ → Performance × Link σ
  | .evaluate form, l =>
    match eval b form l with
    | (.ok e, l) =>
      let (items, answer, l) := e.rest b l
      (⟨items, answer.map fun _ => none⟩, l)
    | (.error stop, l) => (⟨[], .error stop⟩, l)
  | .execute command, l =>
    let (answer, l) := execute b command l
    (⟨[], answer.map some⟩, l)
  | .resetToTopLevel, l =>
    let (answer, l) := resetToTopLevel b l
    (⟨[], answer.map fun _ => none⟩, l)

/-- What can be seen of a task: how it came out, the lines written to the evaluator until then,
and the state of the link. -/
structure Record where
  performance : Performance
  sent : List (Channel × String)
  state : LinkState

/-- Performs tasks in turn. One that waits for ever is the last. -/
def performAll : List Task → Link σ → List Record
  | [], _ => []
  | task :: rest, l =>
    ⟨(perform b task l).1, (perform b task l).2.peer.sent, (perform b task l).2.state⟩ ::
      match (perform b task l).1.answer with
      | .error .stalled => []
      | _ => performAll rest (perform b task l).2

theorem perform_without (task : Task) (l : Link σ) :
    (perform b task l).1 = (perform b task (l.without .all)).1 ∧
      (perform b task l).2.without .all = (perform b task (l.without .all)).2.without .all := by
  cases task with
  | evaluate form =>
    have h := blind_eval (d := .all) b form l
    simp only [perform]
    generalize eval b form l = x at h
    generalize eval b form (l.without .all) = y at h
    obtain ⟨got, l₁⟩ := x
    obtain ⟨got', l₂⟩ := y
    obtain ⟨rfl, hlink⟩ := h
    cases got with
    | error stop => exact ⟨rfl, hlink⟩
    | ok e =>
      -- Nothing is left over where the evaluation starts, so it is the same evaluation.
      obtain rfl : l₁ = l₂ := hlink
      exact ⟨rfl, rfl⟩
  | execute command =>
    obtain ⟨hanswer, hlink⟩ := (blind_execute (d := .all) b command).forget l
    exact ⟨by simp only [perform, hanswer], hlink⟩
  | resetToTopLevel =>
    obtain ⟨hanswer, hlink⟩ := (blind_resetToTopLevel (d := .all) b).forget l
    exact ⟨by simp only [perform, hanswer], hlink⟩

theorem performAll_without (tasks : List Task) (l : Link σ) :
    performAll b tasks l = performAll b tasks (l.without .all) := by
  induction tasks generalizing l with
  | nil => rfl
  | cons task rest ih =>
    obtain ⟨hperformance, hlink⟩ := perform_without b task l
    obtain ⟨hsent, hstate⟩ := seen_of_without hlink
    have hrest : performAll b rest (perform b task l).2 =
        performAll b rest (perform b task (l.without .all)).2 := by
      rw [ih, hlink, ← ih]
    rw [performAll, performAll, hperformance, hsent, hstate, hrest]

def holding (l : Link σ) (queue : List (List UInt8)) (inbox : List UInt8) : Link σ :=
  { l with peer := { l.peer with queue := queue, inbox := inbox } }

/-- Leftovers of earlier operations never show in later ones. -/
theorem performAll_holding (tasks : List Task) (l : Link σ) (queue queue' : List (List UInt8))
    (inbox inbox' : List UInt8) :
    performAll b tasks (l.holding queue inbox) = performAll b tasks (l.holding queue' inbox') := by
  rw [performAll_without b tasks (l.holding queue inbox),
    performAll_without b tasks (l.holding queue' inbox')]
  rfl

end

end Link
end SlimeServer
