import SlimeServer.Evaluator.Link
/-!
# Lines written to an evaluator

A line that a channel takes goes behind those written before, and nothing else is written. Waiting
for what an evaluator sends writes nothing, and the evaluator does not act meanwhile: it remembers
what it did before, and its socket takes further lines unless it breaks. The link finds it alive
and writes to it exactly where the evaluator's own state lets it.
-/
namespace SlimeServer

variable {σ : Type}

def Moment.KeepsLines : Moment → Prop
  | socketBreaks _ => False
  | _ => True

namespace Peer

section

variable (p : Peer σ)

@[simp] theorem sent_happen (m : Moment) : (p.happen m).sent = p.sent := by
  cases m with
  | output piece | received piece =>
    rw [happen]
    split <;> rfl
  | _ => rfl

theorem sent_happenAll (moments : List Moment) : (moments.foldl happen p).sent = p.sent := by
  induction moments generalizing p with
  | nil => rfl
  | cons m rest ih => rw [List.foldl_cons, ih, sent_happen]

@[simp] theorem sent_act (b : Behaviour σ) (a : Act) : (p.act b a).sent = p.sent :=
  sent_happenAll { p with
    memory := (b.react p.memory a).1
    coming := (p.coming ++ (b.react p.memory a).2.moments).drop (b.react p.memory a).2.elapse } _

theorem sent_of_write {b : Behaviour σ} {p q : Peer σ} {channel : Channel} {text : String}
    (h : p.write b channel text = .ok q) : q.sent = p.sent ++ [(channel, text)] := by
  rw [write] at h
  split at h
  · cases h
  · cases h
    rw [sent_act]

end

structure Hears (p : Peer σ) (moments : List Moment) : Prop where
  fault : p.socketFault = none
  keeps : ∀ m ∈ moments, m.KeepsLines

structure Waited (p q : Peer σ) : Prop where
  memory : q.memory = p.memory
  sent : q.sent = p.sent
  hears : p.Hears p.coming → q.Hears q.coming

variable {p q : Peer σ}

theorem waited_refl (p : Peer σ) : p.Waited p := ⟨rfl, rfl, id⟩

theorem Waited.trans {w : Peer σ} (h : p.Waited q) (h' : q.Waited w) : p.Waited w :=
  ⟨h'.memory.trans h.memory, h'.sent.trans h.sent, fun hp => h'.hears (h.hears hp)⟩

theorem waited_happen (p : Peer σ) (m : Moment) (later : List Moment) :
    { p with coming := m :: later }.Waited { p.happen m with coming := later } := by
  have hlater (h : { p with coming := m :: later }.Hears (m :: later)) :
      ∀ m' ∈ later, m'.KeepsLines := fun m' hm => h.keeps m' (List.mem_cons_of_mem m hm)
  cases m with
  | output piece | received piece =>
    rw [happen]
    split <;> exact ⟨rfl, rfl, fun h => ⟨h.fault, hlater h⟩⟩
  | socketBreaks reason =>
    exact ⟨rfl, rfl, fun h => absurd (h.keeps _ (List.mem_cons_self ..)) id⟩
  | _ => exact ⟨rfl, rfl, fun h => ⟨h.fault, hlater h⟩⟩

theorem waited_awaitPiece (p : Peer σ) (coming : List Moment) :
    { p with coming := coming }.Waited (p.awaitPiece coming).2 := by
  fun_induction awaitPiece p coming with
  | case4 p hq ho later hl ih => exact (waited_happen p .tick later).trans ih
  | case5 p hq ho moment later hm ih => exact (waited_happen p moment later).trans ih
  | case3 p hq ho later report hl =>
    exact ⟨rfl, rfl, fun h => ⟨h.fault, fun m hm => h.keeps m (List.mem_cons_of_mem _ hm)⟩⟩
  | _ => exact ⟨rfl, rfl, fun h => ⟨h.fault, h.keeps⟩⟩

theorem waited_awaitFrame (p : Peer σ) (coming : List Moment) :
    { p with coming := coming }.Waited (p.awaitFrame coming).2 := by
  fun_induction awaitFrame p coming with
  | case6 p hr later hl ih => exact (waited_happen p .tick later).trans ih
  | case7 p hr moment later hm ih => exact (waited_happen p moment later).trans ih
  | case5 p hr later report hl =>
    exact ⟨rfl, rfl, fun h => ⟨h.fault, fun m hm => h.keeps m (List.mem_cons_of_mem _ hm)⟩⟩
  | _ => exact ⟨rfl, rfl, fun h => ⟨h.fault, h.keeps⟩⟩

end Peer

namespace Link

variable {b : Behaviour σ} {l : Link σ} {text : String} {q : Peer σ}

theorem checkAlive_some {report : Report} (h : (l.peer.act b .look).loss? = some report) :
    checkAlive b l = (.error (.failed report), { l with peer := l.peer.act b .look }) := by
  have hlook : look b l = (.ok (), { l with peer := l.peer.act b .look }) := rfl
  rw [checkAlive, Op.bind_ok hlook, Op.bind_ok (Op.get_apply _)]
  simp only [h]
  rfl

theorem checkAlive_none (h : (l.peer.act b .look).loss? = none) :
    checkAlive b l = (.ok (), { l with peer := l.peer.act b .look }) := by
  have hlook : look b l = (.ok (), { l with peer := l.peer.act b .look }) := rfl
  rw [checkAlive, Op.bind_ok hlook, Op.bind_ok (Op.get_apply _)]
  simp only [h]
  rfl

theorem ensureUsable_eq (hs : l.state ≠ .failed) :
    ensureUsable b l = noting (checkAlive b) l := by
  rw [ensureUsable, Op.bind_ok (Op.get_apply l), if_neg hs]

theorem noting_ok {α : Type} {op : LinkOp σ α} {a : α} {l' : Link σ} (h : op l = (.ok a, l')) :
    noting op l = (.ok a, l') := by
  rw [noting, h]

theorem ensureUsable_ok (hs : l.state ≠ .failed) (h : (l.peer.act b .look).loss? = none) :
    ensureUsable b l = (.ok (), { l with peer := l.peer.act b .look }) := by
  rw [ensureUsable_eq hs, noting_ok (checkAlive_none h)]

theorem noting_fst {α : Type} (op : LinkOp σ α) (l : Link σ) :
    (noting op l).1 = (op l).1 ∧ (noting op l).2.peer = (op l).2.peer := by
  rw [noting]
  generalize op l = answer
  obtain ⟨got, l'⟩ := answer
  cases got with
  | ok a => exact ⟨rfl, rfl⟩
  | error stop => cases stop <;> exact ⟨rfl, rfl⟩

theorem writeStdin_ok (h : l.peer.write b .stdin (Text.trim text) = .ok q) :
    writeStdin b text l = (.ok (), { l with peer := q }) := by
  rw [writeStdin, Op.bind_ok (Op.get_apply l)]
  simp only [h]
  rfl

theorem writeStdin_error {reason : String}
    (h : l.peer.write b .stdin (Text.trim text) = .error reason) : ∃ report,
      writeStdin b text l = (.error (.failed report), { l with peer := l.peer.act b .look }) := by
  rw [writeStdin, Op.bind_ok (Op.get_apply l)]
  simp only [h]
  cases hloss : (l.peer.act b .look).loss? with
  | some report => exact ⟨report, Op.bind_error (checkAlive_some hloss)⟩
  | none => exact ⟨_, Op.bind_ok (checkAlive_none hloss)⟩

theorem writeSocket_ok (h : l.peer.write b .socket (Text.trim text) = .ok q) :
    writeSocket b text l = (.ok (), { l with peer := q }) := by
  rw [writeSocket, Op.bind_ok (Op.get_apply l)]
  simp only [h]
  rfl

theorem writeSocket_error {reason : String}
    (h : l.peer.write b .socket (Text.trim text) = .error reason) : ∃ report,
      writeSocket b text l = (.error (.failed report), l) := by
  rw [writeSocket, Op.bind_ok (Op.get_apply l)]
  simp only [h]
  exact ⟨_, rfl⟩

end Link

end SlimeServer
