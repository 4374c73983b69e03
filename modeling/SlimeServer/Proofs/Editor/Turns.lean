import SlimeServer.Proofs.Editor.Twins
import SlimeServer.Proofs.FrameGrammar
/-!
# Connections as turns

Serving a connection comes to handling the payloads of its frames in order until the server is asked
to stop. One connection after another is served so, each from the session that the one before has
left; the messages of a turn do not depend on what was sent before.
-/
namespace SlimeServer

open Op (Matches)

variable {σ : Type}

section

variable (site : Site σ)

/-- Handles payloads in order until the server is asked to stop. -/
def handleUntilStop : List (List UInt8) → ServerOp (Exchange σ) Unit
  | [] => pure ()
  | payload :: rest => do
    if (← Op.get).session.stopping then pure ()
    else
      handlePayload site payload
      handleUntilStop rest

/-- Takes one turn after another until the server is asked to stop: the messages of each turn that
was taken, and the session after the last. -/
def handleTurns (s : Session σ) :
    List (List (List UInt8)) → List (List Sexp) × Except (Stop Empty) Unit × Session σ
  | [] => ([], .ok (), s)
  | payloads :: rest =>
    if s.stopping then ([], .ok (), s)
    else match handleUntilStop site payloads ⟨s, []⟩ with
      | (.ok (), x) =>
        let (sent, answer, s) := handleTurns x.session rest
        (x.sent :: sent, answer, s)
      | (.error stop, x) => ([x.sent], .error stop, x.session)

end

section

variable {site : Site σ} {x : Exchange σ} {s : Session σ}

theorem handleUntilStop_stopping (h : x.session.stopping = true) (payloads : List (List UInt8)) :
    handleUntilStop site payloads x = (.ok (), x) := by
  cases payloads with
  | nil => rfl
  | cons payload rest =>
    rw [handleUntilStop, Op.bind_ok (Op.get_apply x), if_pos h]
    rfl

theorem handleUntilStop_cons (h : x.session.stopping = false) (payload : List UInt8)
    (rest : List (List UInt8)) :
    handleUntilStop site (payload :: rest) x =
      (handlePayload site payload >>= fun _ => handleUntilStop site rest) x := by
  rw [handleUntilStop, Op.bind_ok (Op.get_apply x), if_neg (Bool.eq_false_iff.1 h)]

theorem handleTurns_stopping (h : s.stopping = true) (turns : List (List (List UInt8))) :
    handleTurns site s turns = ([], .ok (), s) := by
  cases turns with
  | nil => rfl
  | cons payloads rest => rw [handleTurns, if_pos h]

theorem handleTurns_cons (hgo : s.stopping = false) {payloads : List (List UInt8)}
    (hrun : handleUntilStop site payloads ⟨s, []⟩ = (.ok (), x))
    (rest : List (List (List UInt8))) :
    handleTurns site s (payloads :: rest) =
      (x.sent :: (handleTurns site x.session rest).1, (handleTurns site x.session rest).2) := by
  rw [handleTurns, if_neg (Bool.eq_false_iff.1 hgo), hrun]

/-- The payloads that are handled: none of them after one that asks the server to stop, and all of
them if none does. -/
structure UntilStop (site : Site σ) (x : Exchange σ) (payloads handled left : List (List UInt8)) :
    Prop where
  split : payloads = handled ++ left
  run : handleUntilStop site payloads x = handlePayloads site handled x
  goes : ∀ before payload after, handled = before ++ payload :: after →
    (handlePayloads site before x).1 = .ok () →
      (handlePayloads site before x).2.session.stopping = false
  stops : left ≠ [] → (handlePayloads site handled x).1 = .ok () →
    (handlePayloads site handled x).2.session.stopping = true

theorem untilStop_of_stopping (h : x.session.stopping = true) (payloads : List (List UInt8)) :
    UntilStop site x payloads [] payloads where
  split := rfl
  run := handleUntilStop_stopping h payloads
  goes before payload after heq := by simp at heq
  stops _ _ := h

theorem UntilStop.cons (hgo : x.session.stopping = false) {payload : List UInt8} {y : Exchange σ}
    {rest handled left : List (List UInt8)} (hrun : handlePayload site payload x = (.ok (), y))
    (h : UntilStop site y rest handled left) :
    UntilStop site x (payload :: rest) (payload :: handled) left := by
  have hcons (payloads : List (List UInt8)) :
      handlePayloads site (payload :: payloads) x = handlePayloads site payloads y := by
    rw [handlePayloads, Op.bind_ok hrun]
  refine ⟨congrArg (payload :: ·) h.split, ?_, ?_, ?_⟩
  · rw [handleUntilStop_cons hgo, Op.bind_ok hrun, h.run, hcons]
  · intro before payload' after heq
    cases before with
    | nil => exact fun _ => hgo
    | cons first before =>
      cases heq
      rw [hcons]
      exact h.goes before payload' after rfl
  · rw [hcons]
    exact h.stops

/-- Where a payload does not come to its end, neither does what comes after it. -/
theorem untilStop_of_error (hgo : x.session.stopping = false) {payload : List UInt8}
    {y : Exchange σ} {stop : Stop Empty} (hrun : handlePayload site payload x = (.error stop, y))
    (rest : List (List UInt8)) : UntilStop site x (payload :: rest) (payload :: rest) [] := by
  have hcons (payloads : List (List UInt8)) :
      handlePayloads site (payload :: payloads) x = (.error stop, y) := by
    rw [handlePayloads, Op.bind_error hrun]
  refine ⟨(List.append_nil _).symm, ?_, ?_, fun h => absurd rfl h⟩
  · rw [handleUntilStop_cons hgo, Op.bind_error hrun, hcons]
  · intro before payload' after heq hok
    cases before with
    | nil => exact hgo
    | cons first before =>
      cases heq
      rw [hcons] at hok
      cases hok

theorem exists_untilStop (site : Site σ) (payloads : List (List UInt8)) (x : Exchange σ) :
    ∃ handled left, UntilStop site x payloads handled left := by
  induction payloads generalizing x with
  | nil => exact ⟨[], [], rfl, rfl, fun before _ _ h => by simp at h, fun h => absurd rfl h⟩
  | cons payload rest ih =>
    cases hstopping : x.session.stopping with
    | true => exact ⟨[], payload :: rest, untilStop_of_stopping hstopping _⟩
    | false =>
      cases hrun : handlePayload site payload x with
      | mk got y =>
        cases got with
        | ok u =>
          obtain ⟨handled, left, h⟩ := ih y
          exact ⟨payload :: handled, left, h.cons hstopping hrun⟩
        | error stop => exact ⟨payload :: rest, [], untilStop_of_error hstopping hrun rest⟩

/-- Serving a connection is handling what its frames hold. -/
theorem serve_eq (site : Site σ) (deliveries : List Delivery) (x : Exchange σ) :
    x.serve site deliveries = handleUntilStop site (Frame.readAll deliveries).1 x := by
  fun_induction Exchange.serve site deliveries x with
  | case1 deliveries x hstopping => exact (handleUntilStop_stopping hstopping _).symm
  | case2 deliveries x hgo payload rest hread y hrun ih =>
    rw [Frame.readAll_of_done hread, handleUntilStop_cons (Bool.eq_false_iff.2 hgo),
      Op.bind_ok hrun]
    exact ih
  | case3 deliveries x hgo payload rest hread stop y hrun =>
    rw [Frame.readAll_of_done hread, handleUntilStop_cons (Bool.eq_false_iff.2 hgo),
      Op.bind_error hrun]
  | case4 deliveries x hgo hread =>
    rw [Frame.readAll_of_not_done hread]
    rfl

theorem twins_self (site : Site σ) : Site.Twins Eq site site where
  behaviour := rfl
  processId := rfl
  machine := rfl
  alike := by
    rintro s _ rfl
    exact ⟨rfl, rfl, rfl⟩
  linked := by
    rintro s _ link rfl
    rfl
  leveled := by
    rintro s _ d rfl
    rfl
  launched := by
    rintro s _ rfl
    exact ⟨rfl, rfl⟩
  quitted := by
    rintro s _ rfl
    rfl

theorem matches_handleUntilStop (payloads : List (List UInt8)) (before before' : List Sexp) :
    Matches (Exchange.Beside Eq before before') (handleUntilStop site payloads)
      (handleUntilStop site payloads) := by
  induction payloads with
  | nil => exact Op.matches_pure ()
  | cons payload rest ih =>
    refine Op.matches_get_bind fun x y hxy => ?_
    rw [congrArg Session.stopping hxy.1]
    split
    · exact ⟨rfl, hxy⟩
    · exact ((twins_self site).handlePayload payload).bind (fun _ => ih) x y hxy

theorem append_of_matches {op : ServerOp (Exchange σ) Unit} {before : List Sexp}
    (h : Matches (Exchange.Beside Eq before []) op op) (s : Session σ) :
    op ⟨s, before⟩ = ((op ⟨s, []⟩).1, ⟨(op ⟨s, []⟩).2.session, before ++ (op ⟨s, []⟩).2.sent⟩) := by
  obtain ⟨hout, hsession, messages, hx, hy⟩ := h _ _ (Exchange.beside_start rfl before [])
  rw [List.nil_append] at hy
  rw [hy, ← hx, ← hsession, ← hout]

theorem handleUntilStop_before (site : Site σ) (payloads : List (List UInt8)) (x : Exchange σ) :
    handleUntilStop site payloads x =
      ((handleUntilStop site payloads ⟨x.session, []⟩).1,
        ⟨(handleUntilStop site payloads ⟨x.session, []⟩).2.session,
          x.sent ++ (handleUntilStop site payloads ⟨x.session, []⟩).2.sent⟩) :=
  append_of_matches (matches_handleUntilStop payloads x.sent []) x.session

/-- The server takes its turns, and refuses the connections that come after it was asked to
stop. -/
theorem serveAll_eq (site : Site σ) (s : Session σ) (connections : List (List Delivery)) :
    let turns := handleTurns site s (connections.map fun deliveries =>
      (Frame.readAll deliveries).1)
    (s.serveAll site connections).2 = turns.2 ∧
      (turns.2.1 = .ok () → (s.serveAll site connections).1 =
        turns.1.map (fun sent => .served (framesOf sent)) ++
          List.replicate (connections.length - turns.1.length) .refused) := by
  induction connections generalizing s with
  | nil => exact ⟨rfl, fun _ => rfl⟩
  | cons deliveries rest ih =>
    cases hstopping : s.stopping with
    | true =>
      obtain ⟨hrest, hrefused⟩ := ih s
      rw [handleTurns_stopping hstopping] at hrest hrefused
      rw [Session.serveAll, if_pos hstopping, handleTurns_stopping hstopping]
      refine ⟨hrest, fun hok => ?_⟩
      exact congrArg (Connection.refused :: ·) (hrefused hok)
    | false =>
      rw [Session.serveAll, List.map_cons, handleTurns, hstopping]
      simp only [Bool.false_eq_true, if_false]
      rw [serve_eq]
      cases hrun : handleUntilStop site (Frame.readAll deliveries).1 ⟨s, []⟩ with
      | mk got x =>
        cases got with
        | error stop => exact ⟨rfl, fun h => by cases h⟩
        | ok u =>
          obtain ⟨hrest, hserved⟩ := ih x.session
          refine ⟨hrest, fun hok => ?_⟩
          simp only [List.length_cons, Nat.add_sub_add_right]
          exact congrArg (Connection.served (framesOf x.sent) :: ·) (hserved hok)

end

end SlimeServer
