import SlimeServer.Proofs.Evaluator.Lines
import SlimeServer.Proofs.Evaluator.Supply
import SlimeServer.Proofs.FrameReading
/-!
# The stream on the socket

As long as its process lives, what an evaluator sends on the socket is one stream of bytes, which
may end. However the bytes are cut up and whatever happens between them, waiting for a frame comes
to what the stream begins with: a frame, no header, or an end that comes too early.
-/
namespace SlimeServer

variable {σ : Type}

namespace SocketEnd

def error : SocketEnd → FrameError
  | closed => .connectionClosed
  | failed reason => .failed reason

def report : SocketEnd → Report
  | closed => .lost "Socket connection closed"
  | failed reason => .lost ("Socket error: " ++ reason)

theorem ofFrameError_error (ended : SocketEnd) :
    Report.ofFrameError ended.error = ended.report := by
  cases ended <;> rfl

end SocketEnd

namespace Moment

def KeepsProcess : Moment → Prop
  | exits _ _ => False
  | _ => True

end Moment

namespace Frame

variable {bytes front : List UInt8} {m n : Nat}

theorem Whole.unique (h : Whole bytes m) (h' : Whole bytes n) : m = n :=
  Except.ok.inj ((parseHeader_of_announces h.1).symm.trans (parseHeader_of_announces h'.1))

theorem Whole.not_malformed (h : Whole bytes n) : ¬ Malformed bytes := fun h' => by
  cases (parseHeader_of_announces h.1).symm.trans (parseHeader_of_not_digit h'.2)

theorem Whole.of_prefix (h : Whole front n) (hfront : front <+: bytes) : Whole bytes n := by
  obtain ⟨behind, rfl⟩ := hfront
  have hlength := h.2
  refine ⟨?_, ?_⟩
  · rw [List.take_append_of_le_length (by omega)]
    exact h.1
  · rw [List.length_append]
    omega

theorem Malformed.of_prefix (h : Malformed front) (hfront : front <+: bytes) :
    Malformed bytes := by
  obtain ⟨behind, rfl⟩ := hfront
  refine ⟨?_, ?_⟩
  · rw [List.length_append]
    exact Nat.le_add_right_of_le h.1
  · rw [List.take_append_of_le_length h.1]
    exact h.2

end Frame

namespace Peer

def arrivals : List Moment → List UInt8
  | [] => []
  | .socketEnds _ :: _ => []
  | m :: rest => m.arriving ++ arrivals rest

def firstEnd? : List Moment → Option SocketEnd
  | [] => none
  | .socketEnds how :: _ => some how
  | _ :: rest => firstEnd? rest

/-- While these moments happen the process lives. These bytes have come on the socket or come with
the moments, and the socket has ended like that, or not at all. -/
structure Carries (p : Peer σ) (moments : List Moment) (bytes : List UInt8)
    (how : Option SocketEnd) : Prop where
  alive : p.loss? = none
  keeps : ∀ m ∈ moments, m.KeepsProcess
  bytes_eq : p.inbox ++ (if p.socketEnd.isSome then [] else arrivals moments) = bytes
  ends : p.socketEnd.or (firstEnd? moments) = how

/-- Before a living process might be found to have ended, these bytes have come on the socket or are
about to come, and the socket ends like that or is still open. -/
def Streams (p : Peer σ) (bytes : List UInt8) (how : Option SocketEnd) : Prop :=
  ∃ moments later, p.coming = moments ++ later ∧ p.Carries moments bytes how

section

variable {p : Peer σ} {m : Moment} {moments later : List Moment} {bytes : List UInt8}
  {how : Option SocketEnd}

theorem Carries.happen (h : p.Carries (m :: moments) bytes how) :
    (p.happen m).Carries moments bytes how := by
  obtain ⟨halive, hkeeps, hbytes, hends⟩ := h
  obtain ⟨hm, hlater⟩ := List.forall_mem_cons.1 hkeeps
  cases m with
  | exits code signal => exact hm.elim
  | output piece =>
    rw [Peer.happen]
    split <;> exact ⟨halive, hlater, hbytes, hends⟩
  | received piece =>
    cases hs : p.socketEnd with
    | some ended =>
      have hkept : p.happen (.received piece) = p := by
        rw [Peer.happen, hs]
        rfl
      rw [hs] at hbytes
      rw [hkept]
      exact ⟨halive, hlater, by rw [hs]; exact hbytes, hends⟩
    | none =>
      have hput : p.happen (.received piece) = { p with inbox := p.inbox ++ piece } := by
        rw [Peer.happen, hs]
        rfl
      rw [hs] at hbytes
      rw [hput]
      refine ⟨halive, hlater, ?_, hends⟩
      rw [hs, List.append_assoc]
      exact hbytes
  | socketEnds ended =>
    have hended : (p.happen (.socketEnds ended)).socketEnd = p.socketEnd.or (some ended) := rfl
    cases hs : p.socketEnd <;> rw [hs] at hbytes hends hended <;>
      exact ⟨halive, hlater, by rw [hended]; exact hbytes, by rw [hended]; exact hends⟩
  | outputEnds | stdinBreaks reason | socketBreaks reason | tick =>
    exact ⟨halive, hlater, hbytes, hends⟩

theorem Carries.inbox_prefix (h : p.Carries moments bytes how) : p.inbox <+: bytes :=
  ⟨_, h.bytes_eq⟩

theorem Carries.inbox_eq (h : p.Carries moments bytes how)
    (hend : moments = [] ∨ p.socketEnd.isSome = true) : p.inbox = bytes ∧ p.socketEnd = how := by
  obtain ⟨-, -, hbytes, hends⟩ := h
  rcases hend with rfl | hsome
  · exact ⟨by simpa [arrivals] using hbytes, by simpa [firstEnd?] using hends⟩
  · obtain ⟨ended, hended⟩ := Option.isSome_iff_exists.1 hsome
    rw [hended] at hbytes hends ⊢
    exact ⟨by simpa using hbytes, by simpa using hends⟩

theorem Carries.drop {count : Nat} (h : p.Carries moments bytes how) (coming : List Moment)
    (hcount : count ≤ p.inbox.length) :
    { p with inbox := p.inbox.drop count, coming := coming }.Carries moments (bytes.drop count)
      how := by
  refine ⟨h.alive, h.keeps, ?_, h.ends⟩
  rw [← h.bytes_eq, List.drop_append_of_le_length hcount]

theorem arrived_deliveries (p : Peer σ) : Frame.arrived p.deliveries = p.inbox := by
  cases hi : p.inbox <;> rcases hs : p.socketEnd with _ | _ | _ <;>
    simp [deliveries, hi, hs, Frame.arrived]

theorem ending_deliveries (p : Peer σ) :
    Frame.ending p.deliveries = p.socketEnd.map fun ended => (ended.error, []) := by
  cases hi : p.inbox <;> rcases hs : p.socketEnd with _ | _ | _ <;>
    simp [deliveries, hi, hs, Frame.ending, Frame.errorOf, SocketEnd.error]

theorem bytesOf_deliveries (p : Peer σ) : bytesOf p.deliveries = p.inbox := by
  cases hi : p.inbox <;> rcases hs : p.socketEnd with _ | _ | _ <;>
    simp [deliveries, hi, hs, bytesOf]

theorem bytesOf_of_takes {deliveries rest : List Delivery} {front : List UInt8}
    (h : Frame.Takes deliveries front rest) : bytesOf deliveries = front ++ bytesOf rest := by
  induction h with
  | none => rfl
  | pause _ _ ih => exact ih
  | piece _ _ ih => rw [bytesOf, ih, List.append_assoc]
  | part _ _ => rw [bytesOf, bytesOf, List.append_assoc]

theorem bytesOf_of_takes_take {rest : List Delivery} {count : Nat}
    (h : Frame.Takes p.deliveries (p.inbox.take count) rest) :
    bytesOf rest = p.inbox.drop count := by
  have hbytes := bytesOf_of_takes h
  rw [bytesOf_deliveries] at hbytes
  nth_rewrite 1 [← List.take_append_drop count p.inbox] at hbytes
  exact (List.append_cancel_left hbytes).symm

theorem Carries.awaitFrame_eq (later : List Moment) (h : p.Carries moments bytes how) :
    ∃ (q : Peer σ) (left : List Moment),
      p.awaitFrame (moments ++ later) = q.awaitFrame (left ++ later) ∧ q.Carries left bytes how ∧
      (Frame.read q.deliveries = .starved → left = []) := by
  induction moments generalizing p with
  | nil => exact ⟨p, [], rfl, h, fun _ => rfl⟩
  | cons m moments ih =>
    by_cases hread : Frame.read p.deliveries = .starved
    · obtain ⟨q, left, hawait, hcarries, hleft⟩ := ih h.happen
      refine ⟨q, left, ?_, hcarries, hleft⟩
      rw [List.cons_append, awaitFrame_moment hread h.alive, hawait]
    · exact ⟨p, m :: moments, rfl, h, fun hstarved => absurd hstarved hread⟩

/-- What can be made of what has come is what can be made of the whole stream. -/
theorem Carries.settled (h : p.Carries moments bytes how)
    (hread : Frame.read p.deliveries = .starved → moments = []) :
    (∃ n, Frame.Whole p.inbox n) ∨ Frame.Malformed p.inbox ∨
      p.inbox = bytes ∧ p.socketEnd = how := by
  by_cases hmalformed : Frame.Malformed p.inbox
  · exact .inr (.inl hmalformed)
  by_cases hwhole : ∃ n, Frame.Whole p.inbox n
  · exact .inl hwhole
  have hcut : Frame.read p.deliveries = Frame.cutShort p.deliveries := by
    rw [← arrived_deliveries p] at hmalformed hwhole
    exact Frame.read_cutShort hmalformed (not_exists.1 hwhole)
  refine .inr (.inr (h.inbox_eq ?_))
  cases hs : p.socketEnd with
  | some ended => exact .inr rfl
  | none =>
    refine .inl (hread ?_)
    rw [hcut, Frame.cutShort, ending_deliveries, hs]
    rfl

theorem Carries.whole {n : Nat} (h : p.Carries moments bytes how)
    (hread : Frame.read p.deliveries = .starved → moments = []) (hwhole : Frame.Whole bytes n) :
    Frame.Whole p.inbox n := by
  rcases h.settled hread with ⟨n', hn'⟩ | hmalformed | ⟨hbytes, -⟩
  · rwa [← (hn'.of_prefix h.inbox_prefix).unique hwhole]
  · exact absurd (hmalformed.of_prefix h.inbox_prefix) hwhole.not_malformed
  · rwa [hbytes]

theorem Carries.malformed (h : p.Carries moments bytes how)
    (hread : Frame.read p.deliveries = .starved → moments = [])
    (hmalformed : Frame.Malformed bytes) : Frame.Malformed p.inbox := by
  rcases h.settled hread with ⟨n, hn⟩ | hm | ⟨hbytes, -⟩
  · exact absurd hmalformed (hn.of_prefix h.inbox_prefix).not_malformed
  · exact hm
  · rwa [hbytes]

theorem Carries.short (h : p.Carries moments bytes how)
    (hread : Frame.read p.deliveries = .starved → moments = [])
    (hmalformed : ¬ Frame.Malformed bytes) (hwhole : ∀ n, ¬ Frame.Whole bytes n) :
    p.inbox = bytes ∧ p.socketEnd = how := by
  rcases h.settled hread with ⟨n, hn⟩ | hm | hall
  · exact absurd (hn.of_prefix h.inbox_prefix) (hwhole n)
  · exact absurd (hm.of_prefix h.inbox_prefix) hmalformed
  · exact hall

theorem awaitFrame_whole {coming : List Moment} {n : Nat} (h : Frame.Whole p.inbox n) :
    p.awaitFrame coming = (.ok ((p.inbox.drop Frame.headerLength).take n),
      { p with inbox := p.inbox.drop (Frame.headerLength + n), coming := coming }) := by
  rw [← arrived_deliveries p] at h
  obtain ⟨rest, hread, htakes⟩ := Frame.read_whole h
  rw [arrived_deliveries] at hread htakes
  rw [awaitFrame.eq_def, hread]
  simp only [bytesOf_of_takes_take htakes]

theorem awaitFrame_malformed (coming : List Moment) (h : Frame.Malformed p.inbox) :
    (p.awaitFrame coming).1 = .error (.failed (.ofFrameError
      (.invalidHeader (Utf8.decodeLossy (p.inbox.take Frame.headerLength))))) := by
  rw [← arrived_deliveries p] at h
  obtain ⟨rest, hread, -⟩ := Frame.read_malformed h
  rw [arrived_deliveries] at hread
  rw [awaitFrame.eq_def, hread]

theorem awaitFrame_cutShort {ended : SocketEnd} (coming : List Moment)
    (hmalformed : ¬ Frame.Malformed p.inbox) (hwhole : ∀ n, ¬ Frame.Whole p.inbox n)
    (hend : p.socketEnd = some ended) :
    (p.awaitFrame coming).1 = .error (.failed (.ofFrameError ended.error)) := by
  rw [← arrived_deliveries p] at hmalformed hwhole
  have hread := Frame.read_cutShort hmalformed hwhole
  rw [Frame.cutShort, ending_deliveries, hend, Option.map_some] at hread
  rw [awaitFrame.eq_def, hread]

end

end Peer

/-- What a stream that is ended like that or still open begins with: a frame, which leaves the bytes
behind it, or what keeps a frame from being read. -/
inductive StartsWith (bytes : List UInt8) (how : Option SocketEnd) :
    Except Report (List UInt8 × List UInt8) → Prop
  | frame {n : Nat} (h : Frame.Whole bytes n) : StartsWith bytes how
    (.ok ((bytes.drop Frame.headerLength).take n, bytes.drop (Frame.headerLength + n)))
  | noHeader (h : Frame.Malformed bytes) : StartsWith bytes how (.error (.desynchronized
    ("Invalid frame header: " ++ Text.quoted (Utf8.decodeLossy (bytes.take Frame.headerLength)))))
  | short {ended : SocketEnd} (hmalformed : ¬ Frame.Malformed bytes)
    (hwhole : ∀ n, ¬ Frame.Whole bytes n) (hend : how = some ended) :
    StartsWith bytes how (.error ended.report)

theorem startsWith_of_begins {bytes header payload rest : List UInt8}
    (h : Frame.Begins bytes header payload rest) (how : Option SocketEnd) :
    StartsWith bytes how (.ok (payload, rest)) := by
  have hheader : bytes.take Frame.headerLength = header := by
    rw [h.eq, List.append_assoc, List.take_left' h.length_header]
  have hbehind : bytes.drop Frame.headerLength = payload ++ rest := by
    rw [h.eq, List.append_assoc, List.drop_left' h.length_header]
  have hwhole : Frame.Whole bytes payload.length := by
    refine ⟨?_, ?_⟩
    · rw [hheader]
      exact Frame.announces_of_parseHeader h.announces
    · rw [h.eq, List.length_append, List.length_append, h.length_header]
      exact Nat.le_add_right _ _
  have hframe : StartsWith bytes how _ := .frame hwhole
  rwa [← List.drop_drop, hbehind, List.take_left, List.drop_left] at hframe

theorem fatal_of_startsWith {bytes : List UInt8} {how : Option SocketEnd} {report : Report}
    (h : StartsWith bytes how (.error report)) : report.fatal = true := by
  cases h with
  | noHeader => rfl
  | @short ended => cases ended <;> rfl

theorem exists_startsWith {how : Option SocketEnd} (bytes : List UInt8) (hend : how.isSome = true) :
    ∃ beginning, StartsWith bytes how beginning := by
  obtain ⟨ended, hended⟩ := Option.isSome_iff_exists.1 hend
  by_cases hmalformed : Frame.Malformed bytes
  · exact ⟨_, .noHeader hmalformed⟩
  by_cases hwhole : ∃ n, Frame.Whole bytes n
  · obtain ⟨n, hn⟩ := hwhole
    exact ⟨_, .frame hn⟩
  · exact ⟨_, .short hmalformed (not_exists.1 hwhole) hended⟩

namespace Link

variable {l : Link σ} {bytes : List UInt8} {how : Option SocketEnd}

/-- What waiting for a frame comes to is what the stream begins with. -/
theorem awaitFrame_streams {beginning : Except Report (List UInt8 × List UInt8)}
    (h : l.peer.Streams bytes how) (hstarts : StartsWith bytes how beginning) :
    ∃ q : Peer σ, l.peer.Waited q ∧
      match beginning with
      | .ok (payload, rest) =>
        awaitFrame l = (.ok payload, { l with peer := q }) ∧ q.Streams rest how
      | .error report => awaitFrame l = (.error (.failed report), { l with peer := q }) := by
  obtain ⟨moments, later, hcoming, hcarries⟩ := h
  obtain ⟨q, left, hawait, hq, hleft⟩ := hcarries.awaitFrame_eq later
  refine ⟨(l.peer.awaitFrame l.peer.coming).2, l.peer.waited_awaitFrame _, ?_⟩
  rw [← hcoming] at hawait
  cases hstarts with
  | @frame n hwhole =>
    have hn := hq.whole hleft hwhole
    have hpayload : (q.inbox.drop Frame.headerLength).take n =
        (bytes.drop Frame.headerLength).take n := by
      have hlength := hn.2
      obtain ⟨behind, rfl⟩ := hq.inbox_prefix
      rw [List.drop_append_of_le_length (by omega), List.take_append_of_le_length]
      rw [List.length_drop]
      omega
    rw [Peer.awaitFrame_whole hn, hpayload] at hawait
    refine ⟨by rw [awaitFrame, hawait], ?_⟩
    rw [hawait]
    exact ⟨left, later, rfl, hq.drop _ hn.2⟩
  | noHeader hmalformed =>
    have hm := hq.malformed hleft hmalformed
    have hheader : q.inbox.take Frame.headerLength = bytes.take Frame.headerLength := by
      obtain ⟨behind, rfl⟩ := hq.inbox_prefix
      rw [List.take_append_of_le_length hm.1]
    have hfails := Peer.awaitFrame_malformed (left ++ later) hm
    rw [← hawait, hheader] at hfails
    exact Prod.ext hfails rfl
  | short hmalformed hwhole hend =>
    obtain ⟨hbytes, hsocket⟩ := hq.short hleft hmalformed hwhole
    have hfails := Peer.awaitFrame_cutShort (left ++ later) (by rwa [hbytes])
      (by rwa [hbytes]) (hsocket.trans hend)
    rw [← hawait, SocketEnd.ofFrameError_error] at hfails
    exact Prod.ext hfails rfl

end Link

end SlimeServer
