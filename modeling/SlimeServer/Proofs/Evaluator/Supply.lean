import SlimeServer.Evaluator.Peer
import SlimeServer.Proofs.Frame
/-!
# What is to come from an evaluator

The pieces of output and the bytes on the socket that an evaluator has sent or is about to send, in
whatever order the two channels and the polls take turns. As long as the process lives, waiting
for the next piece or the next frame brings exactly that one and leaves the rest to come.
-/
namespace SlimeServer

namespace Moment

def output? : Moment → Option (List UInt8)
  | output piece => some piece
  | _ => none

def arriving : Moment → List UInt8
  | received piece => piece
  | _ => []

def KeepsOutput : Moment → Prop
  | outputEnds | exits _ _ => False
  | _ => True

def KeepsSocket : Moment → Prop
  | socketEnds _ => False
  | _ => True

instance (m : Moment) : Decidable m.KeepsOutput := by
  cases m <;> first | exact .isTrue trivial | exact .isFalse id

instance (m : Moment) : Decidable m.KeepsSocket := by
  cases m <;> first | exact .isTrue trivial | exact .isFalse id

end Moment

namespace Peer

variable {σ : Type}

structure Pours (p : Peer σ) (moments : List Moment) (pieces : List (List UInt8)) : Prop where
  queueOpen : p.queueOpen = true
  alive : p.loss? = none
  keeps : ∀ m ∈ moments, m.KeepsOutput
  pieces_eq : p.queue ++ moments.filterMap Moment.output? = pieces

structure Speaks (p : Peer σ) (moments : List Moment) (bytes : List UInt8) : Prop where
  socketOpen : p.socketEnd = none
  keeps : ∀ m ∈ moments, m.KeepsSocket
  bytes_eq : p.inbox ++ moments.flatMap Moment.arriving = bytes

section

variable {p : Peer σ} {m : Moment} {moments : List Moment} {pieces : List (List UInt8)}
  {bytes : List UInt8}

theorem Pours.happen (h : p.Pours (m :: moments) pieces) : (p.happen m).Pours moments pieces := by
  have hm := h.keeps m (List.mem_cons_self ..)
  have hkeeps : ∀ m ∈ moments, m.KeepsOutput := fun m' h' => h.keeps m' (List.mem_cons_of_mem _ h')
  have hp := h.pieces_eq
  have ho := h.queueOpen
  have ha := h.alive
  cases m with
  | output piece =>
    rw [Peer.happen, if_pos ho]
    exact ⟨ho, ha, hkeeps, by simpa [Moment.output?] using hp⟩
  | received piece =>
    simp only [Peer.happen]
    split <;> exact ⟨ho, ha, hkeeps, hp⟩
  | outputEnds => exact hm.elim
  | exits code signal => exact hm.elim
  | socketEnds how => exact ⟨ho, ha, hkeeps, hp⟩
  | stdinBreaks reason => exact ⟨ho, ha, hkeeps, hp⟩
  | socketBreaks reason => exact ⟨ho, ha, hkeeps, hp⟩
  | tick => exact ⟨ho, ha, hkeeps, hp⟩

theorem Speaks.happen (h : p.Speaks (m :: moments) bytes) : (p.happen m).Speaks moments bytes := by
  have hm := h.keeps m (List.mem_cons_self ..)
  have hkeeps : ∀ m ∈ moments, m.KeepsSocket := fun m' h' => h.keeps m' (List.mem_cons_of_mem _ h')
  have hb := h.bytes_eq
  have ho := h.socketOpen
  cases m with
  | received piece =>
    rw [Peer.happen, if_neg (by simp [ho])]
    exact ⟨ho, hkeeps, by simpa [Moment.arriving] using hb⟩
  | output piece =>
    simp only [Peer.happen]
    split <;> exact ⟨ho, hkeeps, hb⟩
  | outputEnds => exact ⟨ho, hkeeps, hb⟩
  | exits code signal => exact ⟨ho, hkeeps, hb⟩
  | socketEnds how => exact hm.elim
  | stdinBreaks reason => exact ⟨ho, hkeeps, hb⟩
  | socketBreaks reason => exact ⟨ho, hkeeps, hb⟩
  | tick => exact ⟨ho, hkeeps, hb⟩

theorem awaitPiece_moment (hq : p.queue = []) (ho : p.queueOpen = true) (ha : p.loss? = none) :
    p.awaitPiece (m :: moments) = (p.happen m).awaitPiece moments := by
  cases m with
  | tick =>
    rw [awaitPiece.eq_def]
    simp only [hq, ho, ha, if_true]
    rfl
  | _ =>
    rw [awaitPiece.eq_def]
    simp only [hq, ho, ha, if_true]

/-- The next piece of output comes, whatever else happens before it. -/
theorem Pours.awaitPiece {piece : List UInt8} {rest : List (List UInt8)} (later : List Moment)
    (h : p.Pours moments (piece :: rest)) :
    ∃ q left, p.awaitPiece (moments ++ later) = (.ok piece, q) ∧ q.coming = left ++ later ∧
      q.Pours left rest ∧ ∀ bytes, p.Speaks moments bytes → q.Speaks left bytes := by
  induction moments generalizing p with
  | nil =>
    have hq : p.queue = piece :: rest := by simpa using h.pieces_eq
    refine ⟨{ p with queue := rest, coming := [] ++ later }, [], ?_, rfl, ?_, ?_⟩
    · rw [awaitPiece.eq_def, hq]
    · exact ⟨h.queueOpen, h.alive, h.keeps, by simp⟩
    · exact fun bytes hs => ⟨hs.socketOpen, hs.keeps, hs.bytes_eq⟩
  | cons m moments ih =>
    cases hq : p.queue with
    | nil =>
      obtain ⟨q, left, hawait, hcoming, hpours, hspeaks⟩ := ih h.happen
      refine ⟨q, left, ?_, hcoming, hpours, fun bytes hs => hspeaks bytes hs.happen⟩
      rw [List.cons_append, awaitPiece_moment hq h.queueOpen h.alive, hawait]
    | cons first queue =>
      have hp := h.pieces_eq
      rw [hq, List.cons_append, List.cons.injEq] at hp
      obtain ⟨rfl, hrest⟩ := hp
      refine ⟨{ p with queue := queue, coming := m :: moments ++ later }, m :: moments, ?_, rfl,
        ?_, ?_⟩
      · rw [awaitPiece.eq_def, hq]
      · exact ⟨h.queueOpen, h.alive, h.keeps, hrest⟩
      · exact fun bytes hs => ⟨hs.socketOpen, hs.keeps, hs.bytes_eq⟩

theorem deliveries_eq (ho : p.socketEnd = none) : p.deliveries = Frame.putBack p.inbox [] := by
  simp only [deliveries, ho, List.append_nil, Frame.putBack]

@[simp] theorem bytesOf_putBack (bytes : List UInt8) :
    bytesOf (Frame.putBack bytes []) = bytes := by
  cases bytes with
  | nil => rfl
  | cons b rest => simp [Frame.putBack, bytesOf]

theorem awaitFrame_moment (hr : Frame.read p.deliveries = .starved) (ha : p.loss? = none) :
    p.awaitFrame (m :: moments) = (p.happen m).awaitFrame moments := by
  cases m with
  | tick =>
    rw [awaitFrame.eq_def]
    simp only [hr, ha]
    rfl
  | _ =>
    rw [awaitFrame.eq_def]
    simp only [hr]

/-- The next frame on the socket is read as soon as all of it has come, and not before. -/
theorem Speaks.read {payload more : List UInt8}
    (hs : p.Speaks moments (Frame.framed payload ++ more))
    (hmax : payload.length ≤ Frame.maxPayload) :
    p.inbox.length < (Frame.framed payload).length ∧ Frame.read p.deliveries = .starved ∨
      ∃ left, Frame.read p.deliveries = .done payload (Frame.putBack left []) ∧
        left ++ moments.flatMap Moment.arriving = more := by
  have hb : p.inbox <+: Frame.framed payload ++ more := ⟨_, hs.bytes_eq⟩
  rcases Nat.lt_or_ge p.inbox.length (Frame.framed payload).length with hlt | hge
  · refine .inl ⟨hlt, ?_⟩
    rw [deliveries_eq hs.socketOpen]
    exact Frame.read_begun hmax hb hlt
  · obtain ⟨left, hi⟩ : Frame.framed payload <+: p.inbox :=
      List.prefix_of_prefix_length_le (List.prefix_append _ _) hb hge
    refine .inr ⟨left, ?_, ?_⟩
    · rw [deliveries_eq hs.socketOpen, ← hi, Frame.read_framed hmax]
    · have := hs.bytes_eq
      rwa [← hi, List.append_assoc, List.append_cancel_left_eq] at this

/-- The next frame on the socket comes, whatever else happens before it. -/
theorem Speaks.awaitFrame {payload more : List UInt8} (later : List Moment)
    (hs : p.Speaks moments (Frame.framed payload ++ more))
    (hmax : payload.length ≤ Frame.maxPayload) (hp : p.Pours moments pieces) :
    ∃ q left, p.awaitFrame (moments ++ later) = (.ok payload, q) ∧ q.coming = left ++ later ∧
      q.Speaks left more ∧ q.Pours left pieces := by
  induction moments generalizing p with
  | nil =>
    rcases hs.read hmax with ⟨hlt, -⟩ | ⟨rest, hread, hrest⟩
    · have hi : p.inbox = Frame.framed payload ++ more := by simpa using hs.bytes_eq
      rw [hi, List.length_append] at hlt
      omega
    · refine ⟨{ p with inbox := rest, coming := [] ++ later }, [], ?_, rfl, ?_, ?_⟩
      · rw [awaitFrame.eq_def, hread]
        simp only [bytesOf_putBack]
      · exact ⟨hs.socketOpen, hs.keeps, hrest⟩
      · exact ⟨hp.queueOpen, hp.alive, hp.keeps, hp.pieces_eq⟩
  | cons m moments ih =>
    rcases hs.read hmax with ⟨-, hstarved⟩ | ⟨rest, hread, hrest⟩
    · obtain ⟨q, left, hawait, hcoming, hspeaks, hpours⟩ := ih hs.happen hp.happen
      refine ⟨q, left, ?_, hcoming, hspeaks, hpours⟩
      rw [List.cons_append, awaitFrame_moment hstarved hp.alive, hawait]
    · refine ⟨{ p with inbox := rest, coming := m :: moments ++ later }, m :: moments, ?_, rfl,
        ?_, ?_⟩
      · rw [awaitFrame.eq_def, hread]
        simp only [bytesOf_putBack]
      · exact ⟨hs.socketOpen, hs.keeps, hrest⟩
      · exact ⟨hp.queueOpen, hp.alive, hp.keeps, hp.pieces_eq⟩

end

end Peer
end SlimeServer
