import SlimeServer.Editor.Server
import SlimeServer.Proofs.Operation
/-!
# Runs over payloads

The payloads of a connection are handled one after the other. A payload that holds no well-formed
request leaves everything as it is.
-/
namespace SlimeServer

/-- Payloads that hold no well-formed request. -/
inductive NoRequest (payload : List UInt8) : Prop where
  | notUtf8 (h : Utf8.decode? payload = none)
  | unreadable (text : String) (error : ReadError) (h : Utf8.decode? payload = some text)
      (hr : Sexp.read text = .error error)
  | other (value : Sexp) (h : Sexp.readBytes payload = .ok value)
      (hi : Inbound.isRequest value = false)
  | malformed (value : Sexp) (error : RequestError) (h : Sexp.readBytes payload = .ok value)
      (hi : Inbound.isRequest value = true) (hr : Request.ofSexp value = .error error)

theorem requestIn?_eq_none_iff {payload : List UInt8} :
    requestIn? payload = none ↔ NoRequest payload := by
  constructor
  · intro h
    unfold requestIn? at h
    cases hb : Sexp.readBytes payload with
    | error error =>
      unfold Sexp.readBytes at hb
      cases hd : Utf8.decode? payload with
      | none => exact .notUtf8 hd
      | some text =>
        rw [hd] at hb
        exact .unreadable text error hd hb
    | ok value =>
      cases hi : Inbound.isRequest value with
      | false => exact .other value hb hi
      | true =>
        cases hr : Request.ofSexp value with
        | error error => exact .malformed value error hb hi hr
        | ok r =>
          simp only [hb, Inbound.ofSexp, hi, hr, if_true, Except.map] at h
          cases h
  · intro h
    unfold requestIn?
    cases h with
    | notUtf8 h => simp only [Sexp.readBytes, h]
    | unreadable text error h hr => simp only [Sexp.readBytes, h, hr]
    | other value h hi => simp only [h, Inbound.ofSexp, hi, Bool.false_eq_true, if_false]
    | malformed value error h hi hr =>
      simp only [h, Inbound.ofSexp, hi, hr, if_true, Except.map]

section

variable {σ : Type} (site : Site σ)

/-- Handles payloads one after the other. -/
def handlePayloads : List (List UInt8) → ServerOp (Exchange σ) Unit
  | [] => pure ()
  | payload :: rest => do
    handlePayload site payload
    handlePayloads rest

def handleRequests : List Request → ServerOp (Exchange σ) Unit
  | [] => pure ()
  | r :: rest => do
    handleRequest site r
    handleRequests rest

variable {site} {payload : List UInt8} {x : Exchange σ}

theorem handlePayload_of_noRequest (h : NoRequest payload) :
    handlePayload site payload x = (.ok (), x) := by
  rw [handlePayload, requestIn?_eq_none_iff.2 h]
  rfl

theorem handlePayload_of_request {r : Request} (h : requestIn? payload = some r) :
    handlePayload site payload x = handleRequest site r x := by
  rw [handlePayload, h]

theorem handlePayloads_eq (site : Site σ) (payloads : List (List UInt8)) :
    handlePayloads site payloads = handleRequests site (payloads.filterMap requestIn?) := by
  induction payloads with
  | nil => rfl
  | cons payload rest ih =>
    rw [handlePayloads, ih, handlePayload]
    cases hr : requestIn? payload with
    | none =>
      rw [List.filterMap_cons_none hr]
      exact pure_bind () fun _ => handleRequests site (rest.filterMap requestIn?)
    | some r => rw [List.filterMap_cons_some hr, handleRequests]

theorem handleRequests_append (site : Site σ) (requests more : List Request) :
    handleRequests site (requests ++ more) =
      handleRequests site requests >>= fun _ => handleRequests site more := by
  induction requests with
  | nil => exact (pure_bind () fun _ => handleRequests site more).symm
  | cons r rest ih => rw [List.cons_append, handleRequests, handleRequests, ih, bind_assoc]

theorem upholds_handlePayloads {C : Contract (Exchange σ) Empty} {payloads : List (List UInt8)}
    (h : ∀ r ∈ payloads.filterMap requestIn?, Op.Upholds C (handleRequest site r)) :
    Op.Upholds C (handlePayloads site payloads) := by
  rw [handlePayloads_eq]
  generalize payloads.filterMap requestIn? = requests at h
  induction requests with
  | nil => exact Op.upholds_pure ()
  | cons r rest ih =>
    refine Op.Upholds.bind ?_ fun _ => ?_
    · exact h r (List.mem_cons_self ..)
    · exact ih fun other hother => h other (List.mem_cons_of_mem r hother)

theorem obeys_handlePayloads {R : Law (Exchange σ)} {payloads : List (List UInt8)}
    (h : ∀ r ∈ payloads.filterMap requestIn?, Op.Obeys R (handleRequest site r)) :
    Op.Obeys R (handlePayloads site payloads) :=
  Op.obeys_iff_upholds.2 fun x => upholds_handlePayloads fun r hr =>
    Op.obeys_iff_upholds.1 (h r hr) x

theorem handlePayloads_append (site : Site σ) (payloads more : List (List UInt8)) :
    handlePayloads site (payloads ++ more) =
      handlePayloads site payloads >>= fun _ => handlePayloads site more := by
  rw [handlePayloads_eq, handlePayloads_eq, handlePayloads_eq, List.filterMap_append,
    handleRequests_append]

theorem handlePayloads_prefix {payloads more : List (List UInt8)} {z : Exchange σ}
    (h : handlePayloads site (payloads ++ more) x = (.ok (), z)) :
    ∃ y, handlePayloads site payloads x = (.ok (), y) ∧
      handlePayloads site more y = (.ok (), z) := by
  rw [handlePayloads_append] at h
  obtain ⟨_, y, hfirst, hmore⟩ := Op.bind_eq_ok.1 h
  exact ⟨y, hfirst, hmore⟩

end

/-- The ids of the well-formed requests among payloads, in order. -/
def requestIds (payloads : List (List UInt8)) : List Int64 :=
  (payloads.filterMap requestIn?).map Request.callId

theorem requestIds_append (payloads more : List (List UInt8)) :
    requestIds (payloads ++ more) = requestIds payloads ++ requestIds more := by
  simp [requestIds]

theorem requestIds_cons_of_request {payload : List UInt8} {r : Request} (rest : List (List UInt8))
    (h : requestIn? payload = some r) :
    requestIds (payload :: rest) = r.callId :: requestIds rest := by
  rw [requestIds, List.filterMap_cons, h]
  rfl

def Site.barren {σ : Type} (b : Behaviour σ) : Site σ := ⟨fun _ _ => .failed "", b, 0, ""⟩

end SlimeServer
