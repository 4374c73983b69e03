import Mathlib.Data.List.Forall2
import Mathlib.Data.Prod.Lex
import Mathlib.Logic.Relation
import SlimeServer.Proofs.Editor.Recovery
import SlimeServer.Proofs.Editor.Turns
/-!
# The tasks of the server

While a connection is served, two tasks work side by side: one reads frames and handles what they
hold, the other writes the messages that the first has queued, a few bytes at a time. The connection
is closed once both are done. However the two take turns, the server ends as if it had handled the
payloads one after another, and what was written on every connection are the frames of its messages.
-/
namespace SlimeServer

variable {σ : Type}

/-- What the reading task of a connection does: it reads frames, waits for ever on the request in
hand, or has left the connection to the writing task. -/
inductive Duty where
  | reading
  | waiting
  | leaving
  deriving DecidableEq, Repr

def Duty.left : Duty → Nat
  | .reading => 1
  | .waiting | .leaving => 0

theorem Duty.left_le (duty : Duty) : duty.left ≤ 1 := by
  cases duty <;> decide

/-- A connection while it is served. The messages of the request in hand are pending until the
reading task has queued them in the outbox. The writing task works on the rest of a frame and gives
up for good where it breaks. -/
structure Visit where
  incoming : List Delivery
  duty : Duty
  pending : List Sexp
  outbox : List Sexp
  unwritten : List UInt8
  broken : Bool
  written : List UInt8

namespace Visit

def start (incoming : List Delivery) : Visit := ⟨incoming, .reading, [], [], [], false, []⟩

/-- A step by which messages come closer to the editor. The socket fails only where it is not
writable. -/
inductive Step (writable : Bool) : Visit → Visit → Prop
  | queue {v : Visit} {message : Sexp} {rest : List Sexp} (h : v.pending = message :: rest) :
    Step writable v { v with pending := rest, outbox := v.outbox ++ [message] }
  | take {v : Visit} {message : Sexp} {rest : List Sexp} {frame : List UInt8}
    (hb : v.broken = false) (hu : v.unwritten = []) (h : v.outbox = message :: rest)
    (hframe : Frame.encode (Utf8.encode message.print) = .ok frame) :
    Step writable v { v with outbox := rest, unwritten := frame }
  | refuse {v : Visit} {message : Sexp} {rest : List Sexp} {error : FrameError}
    (hb : v.broken = false) (hu : v.unwritten = []) (h : v.outbox = message :: rest)
    (herror : Frame.encode (Utf8.encode message.print) = .error error) :
    Step writable v { v with outbox := rest, broken := true }
  | write {v : Visit} {count : Nat} (hb : v.broken = false) (hu : v.unwritten ≠ [])
    (hcount : 0 < count) :
    Step writable v
      { v with
        unwritten := v.unwritten.drop count
        written := v.written ++ v.unwritten.take count }
  | fault {v : Visit} (hw : writable = false) (hb : v.broken = false) (hu : v.unwritten ≠ []) :
    Step writable v { v with unwritten := [], broken := true }

/-- What the reading task has still to do, from the session that it has come to. -/
def rest (site : Site σ) (v : Visit) (s : Session σ) : Except (Stop Empty) Unit × Exchange σ :=
  match v.duty with
  | .reading => handleUntilStop site (Frame.readAll v.incoming).1 ⟨s, []⟩
  | .waiting => (.error .stalled, ⟨s, []⟩)
  | .leaving => (.ok (), ⟨s, []⟩)

/-- All that will have been written once messages that are still to be produced are written, too. -/
def bytes (v : Visit) (later : List Sexp) : List UInt8 :=
  v.written ++
    if v.broken then []
    else v.unwritten ++ (framesOf (v.outbox ++ v.pending ++ later)).flatten

theorem bytes_start (incoming : List Delivery) (later : List Sexp) :
    (start incoming).bytes later = (framesOf later).flatten := rfl

/-- Messages come out in the order in which they were produced. -/
theorem Step.bytes_eq {v v' : Visit} (h : Step true v v') (later : List Sexp) :
    v'.bytes later = v.bytes later := by
  cases h with
  | queue h => simp only [bytes, h, List.append_assoc, List.cons_append, List.nil_append]
  | take hb hu h hframe =>
    simp only [bytes, hb, hu, h, Bool.false_eq_true, if_false, List.cons_append, framesOf, hframe,
      List.flatten_cons, List.nil_append]
  | refuse hb hu h herror =>
    simp only [bytes, hb, hu, h, Bool.false_eq_true, if_false, if_true, List.cons_append, framesOf,
      herror, List.flatten_nil, List.nil_append]
  | @write count hb hu hcount =>
    simp only [bytes, hb, Bool.false_eq_true, if_false, List.append_assoc]
    rw [← List.append_assoc (v.unwritten.take count), List.take_append_drop]
  | fault hw => cases hw

theorem Step.rest_eq {writable : Bool} {v v' : Visit} (h : Step writable v v') (site : Site σ)
    (s : Session σ) : v'.rest site s = v.rest site s := by
  cases h <;> rfl

/-- What is left to be done for the messages of a connection: those on their way, and the bytes of
the frame in hand. -/
def work (v : Visit) : Nat ×ₗ Nat :=
  toLex (2 * v.pending.length + v.outbox.length, v.unwritten.length)

/-- Every step leaves less to be done. -/
theorem Step.work_lt {writable : Bool} {v v' : Visit} (h : Step writable v v') :
    v'.work < v.work := by
  cases h with
  | queue h =>
    refine Prod.Lex.left _ _ ?_
    simp only [h, List.length_append, List.length_cons, List.length_nil]
    omega
  | take hb hu h hframe | refuse hb hu h herror =>
    refine Prod.Lex.left _ _ ?_
    simp only [h, List.length_cons]
    omega
  | write hb hu hcount =>
    have hlength := List.length_pos_iff.2 hu
    refine Prod.Lex.right _ ?_
    simp only [List.length_drop]
    omega
  | fault hw hb hu => exact Prod.Lex.right _ (List.length_pos_iff.2 hu)

def Done (v : Visit) : Prop :=
  v.pending = [] ∧ (v.broken = true ∨ v.unwritten = [] ∧ v.outbox = [])

theorem Done.bytes_eq {v : Visit} (h : v.Done) : v.bytes [] = v.written := by
  obtain ⟨hp, hb | ⟨hu, ho⟩⟩ := h
  · simp only [bytes, hb, if_true, List.append_nil]
  · simp only [bytes, hp, hu, ho, List.append_nil, framesOf, List.flatten_nil, ite_self]

/-- As long as there is something to write, something can be done. -/
theorem exists_step_of_not_done (writable : Bool) {v : Visit} (h : ¬ v.Done) :
    ∃ v', Step writable v v' := by
  cases hp : v.pending with
  | cons message rest => exact ⟨_, .queue hp⟩
  | nil =>
    cases hb : v.broken with
    | true => exact absurd ⟨hp, .inl hb⟩ h
    | false =>
      cases hu : v.unwritten with
      | cons b more => exact ⟨_, .write hb (by simp [hu]) Nat.one_pos⟩
      | nil =>
        cases ho : v.outbox with
        | nil => exact absurd ⟨hp, .inr ⟨hu, ho⟩⟩ h
        | cons message rest =>
          cases hframe : Frame.encode (Utf8.encode message.print) with
          | ok frame => exact ⟨_, .take hb hu ho hframe⟩
          | error error => exact ⟨_, .refuse hb hu ho hframe⟩

end Visit

inductive Phase where
  | listening
  | visited (v : Visit)
  | returned

/-- A server at work: the connections to come, and the bytes that were written on each of those that
are closed. -/
structure Serving (σ : Type) where
  session : Session σ
  upcoming : List (List Delivery)
  phase : Phase
  closed : List (List UInt8)

namespace Serving

def start (s : Session σ) (connections : List (List Delivery)) : Serving σ :=
  ⟨s, connections, .listening, []⟩

/-- One step of the server or of one of the tasks of the connection that is served. Whether it is to
stop is looked at before every frame and before every connection. -/
inductive Step (site : Site σ) (writable : Bool) : Serving σ → Serving σ → Prop
  | accept {s : Session σ} {deliveries : List Delivery} {upcoming : List (List Delivery)}
    {closed : List (List UInt8)} (hgo : s.stopping = false) :
    Step site writable ⟨s, deliveries :: upcoming, .listening, closed⟩
      ⟨s, upcoming, .visited (.start deliveries), closed⟩
  | handle {s : Session σ} {upcoming : List (List Delivery)} {v : Visit}
    {closed : List (List UInt8)} {payload : List UInt8} {rest : List Delivery}
    {got : Except (Stop Empty) Unit} {x : Exchange σ} (hduty : v.duty = .reading)
    (hpending : v.pending = []) (hgo : s.stopping = false)
    (hread : Frame.read v.incoming = .done payload rest)
    (hrun : handlePayload site payload ⟨s, []⟩ = (got, x)) :
    Step site writable ⟨s, upcoming, .visited v, closed⟩
      ⟨x.session, upcoming, .visited
        { v with
          incoming := rest
          duty := if Op.waits got then .waiting else .reading
          pending := x.sent }, closed⟩
  | leave {s : Session σ} {upcoming : List (List Delivery)} {v : Visit}
    {closed : List (List UInt8)} (hduty : v.duty = .reading) (hpending : v.pending = [])
    (h : s.stopping = true ∨ ∀ payload rest, Frame.read v.incoming ≠ .done payload rest) :
    Step site writable ⟨s, upcoming, .visited v, closed⟩
      ⟨s, upcoming, .visited { v with duty := .leaving }, closed⟩
  | visit {s : Session σ} {upcoming : List (List Delivery)} {v v' : Visit}
    {closed : List (List UInt8)} (h : v.Step writable v') :
    Step site writable ⟨s, upcoming, .visited v, closed⟩ ⟨s, upcoming, .visited v', closed⟩
  | close {s : Session σ} {upcoming : List (List Delivery)} {v : Visit}
    {closed : List (List UInt8)} (hduty : v.duty = .leaving) (hdone : v.Done) :
    Step site writable ⟨s, upcoming, .visited v, closed⟩
      ⟨s, upcoming, .listening, closed ++ [v.written]⟩
  | finish {s : Session σ} {upcoming : List (List Delivery)} {closed : List (List UInt8)}
    (h : s.stopping = true ∨ upcoming = []) :
    Step site writable ⟨s, upcoming, .listening, closed⟩
      ⟨s.shutdown, upcoming, .returned, closed⟩

abbrev Run (site : Site σ) (writable : Bool) : Serving σ → Serving σ → Prop :=
  Relation.ReflTransGen (Step site writable)

section

variable {site : Site σ} {writable : Bool} {c c' : Serving σ}

/-- What is left of a server: the connections, what is to be read of the one that is served, the
messages on their way and the bytes of the frame in hand. Every step makes it less, the earlier
numbers counting for more. -/
def remaining (c : Serving σ) : Nat ×ₗ Nat ×ₗ Nat ×ₗ Nat :=
  match c.phase with
  | .returned => toLex (2 * c.upcoming.length, toLex (0, toLex (0, 0)))
  | .listening => toLex (2 * c.upcoming.length + 1, toLex (0, toLex (0, 0)))
  | .visited v => toLex (2 * c.upcoming.length + 2,
      toLex (volume v.incoming + v.duty.left,
        toLex (2 * v.pending.length + v.outbox.length, v.unwritten.length)))

theorem Step.remaining_lt (h : Step site writable c c') : c'.remaining < c.remaining := by
  cases h with
  | accept hgo =>
    refine Prod.Lex.left _ _ ?_
    simp only [List.length_cons]
    omega
  | handle hduty hpending hgo hread hrun =>
    have hvolume := volume_read hread
    refine Prod.Lex.right _ (Prod.Lex.left _ _ ?_)
    rw [hduty]
    exact Nat.add_lt_add_of_lt_of_le hvolume (Duty.left_le _)
  | leave hduty hpending h =>
    refine Prod.Lex.right _ (Prod.Lex.left _ _ ?_)
    rw [hduty]
    exact Nat.lt_succ_self _
  | visit h =>
    have hwork := h.work_lt
    cases h <;> exact Prod.Lex.right _ (Prod.Lex.right _ hwork)
  | close hduty hdone => exact Prod.Lex.left _ _ (Nat.lt_succ_self _)
  | finish h => exact Prod.Lex.left _ _ (Nat.lt_succ_self _)

theorem wellFounded_step : WellFounded fun c' c : Serving σ => Step site writable c c' :=
  Subrelation.wf (fun h => Step.remaining_lt h) (InvImage.wf remaining wellFounded_lt)

/-- The bytes of all connections, the answer and the last session, if the connections to come are
taken in turns. -/
def later (site : Site σ) (s : Session σ) (upcoming : List (List Delivery))
    (closed : List (List UInt8)) : List (List UInt8) × Except (Stop Empty) Unit × Session σ :=
  let turns := handleTurns site s (upcoming.map fun deliveries => (Frame.readAll deliveries).1)
  (closed ++ turns.1.map fun sent => (framesOf sent).flatten, turns.2)

/-- The bytes of all connections, the answer and the last session that a server heads for. -/
def ending (site : Site σ) (c : Serving σ) :
    List (List UInt8) × Except (Stop Empty) Unit × Session σ :=
  match c.phase with
  | .returned => (c.closed, .ok (), c.session)
  | .listening => later site c.session c.upcoming c.closed
  | .visited v =>
    match v.rest site c.session with
    | (.ok (), x) => later site x.session c.upcoming (c.closed ++ [v.bytes x.sent])
    | (.error stop, x) => (c.closed ++ [v.bytes x.sent], .error stop, x.session)

theorem later_over {s : Session σ} {upcoming : List (List Delivery)}
    (h : s.stopping = true ∨ upcoming = []) (closed : List (List UInt8)) :
    later site s upcoming closed = (closed, .ok (), s) := by
  have hturns : handleTurns site s
      (upcoming.map fun deliveries => (Frame.readAll deliveries).1) = ([], .ok (), s) := by
    rcases h with hstopping | rfl
    · exact handleTurns_stopping hstopping _
    · rfl
  rw [later, hturns, List.map_nil, List.append_nil]

theorem later_cons (site : Site σ) {s : Session σ} (hgo : s.stopping = false)
    (deliveries : List Delivery) (upcoming : List (List Delivery)) (closed : List (List UInt8)) :
    later site s (deliveries :: upcoming) closed =
      ending site ⟨s, upcoming, .visited (.start deliveries), closed⟩ := by
  have hrest : (Visit.start deliveries).rest site s =
      handleUntilStop site (Frame.readAll deliveries).1 ⟨s, []⟩ := rfl
  simp only [later, ending, List.map_cons, handleTurns, hgo, Bool.false_eq_true, if_false, hrest,
    Visit.bytes_start]
  cases handleUntilStop site (Frame.readAll deliveries).1 ⟨s, []⟩ with
  | mk got x =>
    cases got with
    | ok u => simp only [List.map_cons, List.append_assoc, List.cons_append, List.nil_append]
    | error stop => rfl

/-- To handle a payload is the first part of what is left to do. -/
theorem ending_handle {s : Session σ} {upcoming : List (List Delivery)} {v : Visit}
    {closed : List (List UInt8)} {payload : List UInt8} {rest : List Delivery}
    {got : Except (Stop Empty) Unit} {x : Exchange σ} (hduty : v.duty = .reading)
    (hpending : v.pending = []) (hgo : s.stopping = false)
    (hread : Frame.read v.incoming = .done payload rest)
    (hrun : handlePayload site payload ⟨s, []⟩ = (got, x)) :
    ending site ⟨x.session, upcoming, .visited
        { v with
          incoming := rest
          duty := if Op.waits got then .waiting else .reading
          pending := x.sent }, closed⟩ =
      ending site ⟨s, upcoming, .visited v, closed⟩ := by
  have hbytes (duty : Duty) (later : List Sexp) :
      Visit.bytes { v with incoming := rest, duty := duty, pending := x.sent } later =
        v.bytes (x.sent ++ later) := by
    simp only [Visit.bytes, hpending, List.append_nil, List.append_assoc]
  -- What is left to do begins with the payload that was read.
  have hrest : v.rest site s = (handlePayload site payload >>= fun _ =>
      handleUntilStop site (Frame.readAll rest).1) ⟨s, []⟩ := by
    simp only [Visit.rest, hduty]
    rw [Frame.readAll_of_done hread, handleUntilStop_cons hgo]
  cases got with
  | ok u =>
    have hmore : Visit.rest site
        { v with incoming := rest, duty := .reading, pending := x.sent } x.session =
        handleUntilStop site (Frame.readAll rest).1 ⟨x.session, []⟩ := rfl
    rw [Op.bind_ok hrun, handleUntilStop_before] at hrest
    simp only [ending, Op.waits, Bool.false_eq_true, if_false, hrest, hmore, hbytes]
    generalize handleUntilStop site (Frame.readAll rest).1 ⟨x.session, []⟩ = answer
    obtain ⟨got, y⟩ := answer
    cases got <;> rfl
  | error stop =>
    rw [Op.bind_error hrun] at hrest
    cases stop with
    | failed error => exact error.elim
    | stalled =>
      have hmore : Visit.rest site
          { v with incoming := rest, duty := .waiting, pending := x.sent } x.session =
          (.error .stalled, ⟨x.session, []⟩) := rfl
      simp only [ending, Op.waits, if_true, hrest, hmore, hbytes, List.append_nil]

theorem ending_leave {s : Session σ} {upcoming : List (List Delivery)} {v : Visit}
    {closed : List (List UInt8)} (hduty : v.duty = .reading)
    (h : s.stopping = true ∨ ∀ payload rest, Frame.read v.incoming ≠ .done payload rest) :
    ending site ⟨s, upcoming, .visited { v with duty := .leaving }, closed⟩ =
      ending site ⟨s, upcoming, .visited v, closed⟩ := by
  have hrest : v.rest site s = (.ok (), ⟨s, []⟩) := by
    simp only [Visit.rest, hduty]
    rcases h with hstopping | hread
    · exact handleUntilStop_stopping hstopping _
    · rw [Frame.readAll_of_not_done hread]
      rfl
  simp only [ending, hrest]
  rfl

/-- A server that has not returned keeps heading for the same end, but for what a socket that fails
does not take. -/
theorem Step.ending_eq (h : Step site writable c c') (hopen : c'.phase ≠ .returned) :
    (c'.ending site).2 = (c.ending site).2 ∧
      (writable = true → (c'.ending site).1 = (c.ending site).1) := by
  cases h with
  | accept hgo =>
    have hcons := later_cons site hgo
    simp only [ending] at hcons ⊢
    rw [hcons]
    exact ⟨rfl, fun _ => rfl⟩
  | handle hduty hpending hgo hread hrun =>
    rw [ending_handle hduty hpending hgo hread hrun]
    exact ⟨rfl, fun _ => rfl⟩
  | leave hduty hpending h =>
    rw [ending_leave hduty h]
    exact ⟨rfl, fun _ => rfl⟩
  | visit h =>
    simp only [ending, h.rest_eq]
    split
    · exact ⟨rfl, fun hwritable => by rw [(hwritable ▸ h : Visit.Step true _ _).bytes_eq]⟩
    · exact ⟨rfl, fun hwritable => by rw [(hwritable ▸ h : Visit.Step true _ _).bytes_eq]⟩
  | close hduty hdone =>
    simp only [ending, Visit.rest, hduty, hdone.bytes_eq, implies_true, and_self]
  | finish h => exact absurd rfl hopen

inductive Heads (site : Site σ) (writable : Bool)
    (aim : List (List UInt8) × Except (Stop Empty) Unit × Session σ) (c : Serving σ) : Prop
  | working (hphase : c.phase ≠ .returned) (hend : (c.ending site).2 = aim.2)
    (hwritten : writable = true → (c.ending site).1 = aim.1)
  | returned (hphase : c.phase = .returned) (hok : aim.2.1 = .ok ())
    (hsession : c.session = aim.2.2.shutdown) (hwritten : writable = true → c.closed = aim.1)

theorem Heads.step {aim : List (List UInt8) × Except (Stop Empty) Unit × Session σ}
    (h : Heads site writable aim c) (hstep : Step site writable c c') :
    Heads site writable aim c' := by
  cases h with
  | returned hphase => cases hstep <;> cases hphase
  | working hphase hend hwritten =>
    by_cases hopen : c'.phase = .returned
    · cases hstep with
      | @finish s upcoming closed h =>
        simp only [ending, later_over h] at hend hwritten
        exact .returned rfl (by rw [← hend]) (by rw [← hend]) hwritten
      | _ => cases hopen
    · obtain ⟨hend', hwritten'⟩ := hstep.ending_eq hopen
      exact .working hopen (hend'.trans hend) fun hw => (hwritten' hw).trans (hwritten hw)

theorem Heads.run {aim : List (List UInt8) × Except (Stop Empty) Unit × Session σ}
    (h : Heads site writable aim c) (hrun : Run site writable c c') :
    Heads site writable aim c' := by
  induction hrun with
  | refl => exact h
  | tail _ hstep ih => exact ih.step hstep

/-- A server that can do nothing has returned, or a request waits for ever. -/
theorem returned_of_stuck (hstuck : ∀ c', ¬ Step site writable c c') :
    c.phase = .returned ∨ (c.ending site).2 = (.error .stalled, c.session) := by
  obtain ⟨s, upcoming, phase, closed⟩ := c
  cases phase with
  | returned => exact .inl rfl
  | listening =>
    cases hstopping : s.stopping with
    | true => exact absurd (.finish (.inl hstopping)) (hstuck _)
    | false =>
      cases upcoming with
      | nil => exact absurd (.finish (.inr rfl)) (hstuck _)
      | cons deliveries rest => exact absurd (.accept hstopping) (hstuck _)
  | visited v =>
    by_cases hdone : v.Done
    · cases hduty : v.duty with
      | leaving => exact absurd (.close hduty hdone) (hstuck _)
      | waiting =>
        right
        simp only [ending, Visit.rest, hduty]
      | reading =>
        by_cases hread : s.stopping = true ∨
            ∀ payload rest, Frame.read v.incoming ≠ .done payload rest
        · exact absurd (.leave hduty hdone.1 hread) (hstuck _)
        · push Not at hread
          obtain ⟨hgo, payload, rest, hread⟩ := hread
          exact absurd (.handle hduty hdone.1 (Bool.eq_false_iff.2 hgo) hread rfl) (hstuck _)
    · obtain ⟨v', hstep⟩ := v.exists_step_of_not_done writable hdone
      exact absurd (.visit hstep) (hstuck _)

end

end Serving

def Fits (message : Sexp) : Prop := (Utf8.encode message.print).length ≤ Frame.maxPayload

theorem fits_iff {message : Sexp} :
    Fits message ↔ (message.printChars.flatMap Utf8.encodeChar).length ≤ Frame.maxPayload := by
  rw [Fits, Utf8.encode, Sexp.print, String.toList_ofList]

def frameOf (message : Sexp) : List UInt8 := Frame.framed (Utf8.encode message.print)

theorem framesOf_fits {messages : List Sexp} (h : ∀ m ∈ messages, Fits m) :
    framesOf messages = messages.map frameOf := by
  induction messages with
  | nil => rfl
  | cons message rest ih =>
    have hfits : Fits message := h message (List.mem_cons_self ..)
    rw [framesOf, Frame.encode_eq_ok hfits, List.map_cons]
    exact congrArg (frameOf message :: ·) (ih fun m hm => h m (List.mem_cons_of_mem _ hm))

theorem turns_of_frames {connections : List (List Delivery)} {turns : List (List (List UInt8))}
    (h : List.Forall₂ (fun deliveries payloads =>
      Frame.Frames (Frame.arrived deliveries) payloads) connections turns) :
    (connections.map fun deliveries => (Frame.readAll deliveries).1) = turns := by
  induction h with
  | nil => rfl
  | cons hframes _ ih => rw [List.map_cons, Frame.readAll_of_frames hframes, ih]

namespace Serving

/-- The server handles the payloads of the frames of its connections one after another, each
connection up to where no whole frame begins, and none after one that asks it to stop. However its
tasks take turns and however the streams are cut, it comes to a halt. Where it returns, which only a
request that waits for ever keeps it from, the session is the one that those payloads leave, without
its evaluator and its levels. On every connection the frames of the messages of its payloads have
then been written in order, if they all fit and the socket takes them. -/
theorem tasks_refine_turns (site : Site σ) (s : Session σ) (connections : List (List Delivery))
    (turns : List (List (List UInt8)))
    (hframes : List.Forall₂ (fun deliveries payloads =>
      Frame.Frames (Frame.arrived deliveries) payloads) connections turns) :
    let outcome := handleTurns site s turns
    (∀ payloads x, ∃ handled left, UntilStop site x payloads handled left) ∧
    (∀ writable, Acc (fun c' c => Step site writable c c') (.start s connections)) ∧
    (∀ writable c, Run site writable (.start s connections) c →
      (c.phase = .listening → c.session.stopping = true ∨ c.upcoming = [] →
        outcome.2 = (.ok (), c.session)) ∧
      (c.phase = .returned →
        outcome.2.1 = .ok () ∧ c.session = outcome.2.2.shutdown ∧ c.session.link = none ∧
          c.session.debugger = .empty ∧
          (writable = true → (∀ sent ∈ outcome.1, ∀ m ∈ sent, Fits m) →
            c.closed = outcome.1.map fun sent => sent.flatMap frameOf)) ∧
      ((∀ c', ¬ Step site writable c c') →
        c.phase = .returned ∨ outcome.2 = (.error .stalled, c.session))) ∧
    (outcome.2.1 = .ok () → s.serve site connections =
      (outcome.1.map (fun sent => .served (framesOf sent)) ++
        List.replicate (connections.length - outcome.1.length) .refused,
        .ok (), outcome.2.2.shutdown)) := by
  intro outcome
  have hturns := turns_of_frames hframes
  have haim (writable : Bool) : Heads site writable
      (outcome.1.map fun sent => (framesOf sent).flatten, outcome.2) (.start s connections) := by
    have hstart : ending site (.start s connections) =
        ([] ++ outcome.1.map fun sent => (framesOf sent).flatten, outcome.2) := by
      simp only [ending, start, later, hturns, outcome]
    exact .working nofun (by rw [hstart]) fun _ => by rw [hstart, List.nil_append]
  refine ⟨fun payloads x => exists_untilStop site payloads x,
    fun writable => wellFounded_step.apply _, fun writable c hrun => ?_, fun hok => ?_⟩
  · have hheads := (haim writable).run hrun
    refine ⟨fun hphase hover => ?_, fun hphase => ?_, fun hstuck => ?_⟩
    · cases hheads with
      | returned hreturned =>
        rw [hphase] at hreturned
        cases hreturned
      | working _ hend _ =>
        rw [← hend]
        simp only [ending, hphase, later_over hover]
    · cases hheads with
      | working hopen => exact absurd hphase hopen
      | returned _ hok hsession hwritten =>
        refine ⟨hok, hsession, by rw [hsession]; rfl, by rw [hsession]; rfl,
          fun hwritable hfits => ?_⟩
        rw [hwritten hwritable]
        refine List.map_congr_left fun sent hsent => ?_
        rw [framesOf_fits (hfits sent hsent), List.flatMap_def]
    · rcases returned_of_stuck hstuck with hreturned | hwaits
      · exact .inl hreturned
      · cases hheads with
        | returned hreturned => exact .inl hreturned
        | working _ hend _ => exact .inr (hend.symm.trans hwaits)
  · obtain ⟨hend, hserved⟩ := serveAll_eq site s connections
    rw [hturns] at hend hserved
    have hall : s.serveAll site connections = (_, .ok (), outcome.2.2) :=
      Prod.ext (hserved hok) (hend.trans (Prod.ext hok rfl))
    rw [Session.serve, hall]

def formPayload : List UInt8 := Utf8.encode "(:emacs-rex (swank:interactive-eval \"1\") nil t 1)"

def quitPayload : List UInt8 := Utf8.encode "(:emacs-rex (swank:quit-lisp) nil t 2)"

def quitRequest : Request := ⟨"swank:quit-lisp", [], none, .truth, 2⟩

/-- A connection that sends a request in two pieces, one that asks the server to stop before it
sends another request, and one that comes too late. -/
def cutConnections : List (List Delivery) :=
  [[.bytes ((Frame.framed formPayload).take 9), .pause, .bytes ((Frame.framed formPayload).drop 9),
      .closed],
    [.bytes ([quitPayload, formPayload].flatMap Frame.framed)], []]

def cutTurns : List (List (List UInt8)) :=
  [[formPayload], [quitPayload, formPayload], []]

def cutLevel : Exchange Unit := nestedStart.enterDebugger 1 Session.noEvaluator

theorem frames_cut : List.Forall₂ (fun deliveries payloads =>
    Frame.Frames (Frame.arrived deliveries) payloads) cutConnections cutTurns := by
  have harrived : cutConnections.map Frame.arrived =
      cutTurns.map fun payloads => payloads.flatMap Frame.framed := by
    decide +kernel
  have hfits : ∀ payloads ∈ cutTurns, ∀ payload ∈ payloads,
      payload.length ≤ Frame.maxPayload := by
    decide +kernel
  rw [List.forall₂_iff_get]
  refine ⟨rfl, fun i h h' => ?_⟩
  have hbytes : Frame.arrived (cutConnections.get ⟨i, h⟩) =
      (cutTurns.get ⟨i, h'⟩).flatMap Frame.framed := by
    have hget := congrArg (fun bytes => bytes[i]?) harrived
    simpa [List.getElem?_eq_getElem h, List.getElem?_eq_getElem h'] using hget
  rw [hbytes]
  exact Frame.frames_flatMap_framed (hfits _ (List.get_mem _ _))

theorem handleTurns_cut : handleTurns (.barren (.answering [] [])) nestedStart.session cutTurns =
    ([cutLevel.sent, [(Reply.ok .nil).toMessage 2]], .ok (),
      cutLevel.session.shutdown.requestStop) := by
  have heval : requestIn? formPayload = some (evalRequest "1" 1) := by decide +kernel
  have hquit : requestIn? quitPayload = some quitRequest := by decide +kernel
  have hfirst : handleUntilStop (.barren (.answering [] [])) [formPayload]
      ⟨nestedStart.session, []⟩ = (.ok (), cutLevel) := by
    rw [handleUntilStop_cons rfl,
      Op.bind_ok ((handlePayload_of_request heval).trans (handleRequest_eval "1" 1 rfl))]
    rfl
  have hsecond : handleUntilStop (.barren (.answering [] [])) [quitPayload, formPayload]
      ⟨cutLevel.session, []⟩ = (.ok (), ⟨cutLevel.session.shutdown.requestStop,
        [(Reply.ok .nil).toMessage 2]⟩) := by
    have hquitted : EditorOperation.handle (.barren (.answering [] [])) .quitLisp []
        ⟨cutLevel.session, []⟩ =
        (.ok (.ok .nil), ⟨cutLevel.session.shutdown.requestStop, []⟩) := rfl
    have hrequest :=
      handleRequest_of_reply (r := quitRequest) EditorOperation.get?_quitLisp hquitted
    rw [handleUntilStop_cons rfl, Op.bind_ok ((handlePayload_of_request hquit).trans hrequest)]
    exact handleUntilStop_stopping rfl _
  rw [cutTurns, handleTurns_cons rfl hfirst, handleTurns_cons rfl hsecond,
    handleTurns_stopping rfl]

/-- However the two connections are cut up and the tasks take turns, the server returns, and has
written the level that the first request opened and the answer to the one that stops it. -/
theorem tasks_refine_turns_cut :
    List.Forall₂ (fun deliveries payloads =>
      Frame.Frames (Frame.arrived deliveries) payloads) cutConnections cutTurns ∧
    ∀ c, Run (.barren (.answering [] [])) true (.start nestedStart.session cutConnections) c →
      (∀ c', ¬ Step (.barren (.answering [] [])) true c c') →
        c.phase = .returned ∧ c.session.link = none ∧ c.session.debugger = .empty ∧
        c.closed = [cutLevel.sent.flatMap frameOf, frameOf ((Reply.ok .nil).toMessage 2)] := by
  refine ⟨frames_cut, fun c hrun hstuck => ?_⟩
  obtain ⟨-, -, hruns, -⟩ := tasks_refine_turns (.barren (.answering [] [])) nestedStart.session
    cutConnections cutTurns frames_cut
  obtain ⟨-, hreturned, hhalts⟩ := hruns true c hrun
  rw [handleTurns_cut] at hreturned hhalts
  have hphase : c.phase = .returned := by
    rcases hhalts hstuck with hphase | hwaits
    · exact hphase
    · cases hwaits
  obtain ⟨-, -, hlink, hdebugger, hwritten⟩ := hreturned hphase
  have hfits : ∀ sent ∈ [cutLevel.sent, [(Reply.ok .nil).toMessage 2]], ∀ m ∈ sent, Fits m := by
    simp only [fits_iff]
    decide +kernel
  refine ⟨hphase, hlink, hdebugger, ?_⟩
  rw [hwritten rfl hfits, List.map_cons, List.map_cons, List.map_nil, List.flatMap_singleton]

end Serving

end SlimeServer
