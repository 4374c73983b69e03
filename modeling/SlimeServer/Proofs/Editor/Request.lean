import SlimeServer.Editor.Server
import SlimeServer.Proofs.Sexp.RoundTrip
import SlimeServer.Proofs.Text.Utf8
/-!
# Requests as messages

Which messages of the editor are requests, which ones are malformed requests and which ones are
neither. A request that is written as a message is read from it again, with `nil` for the empty
lists in its arguments.
-/
namespace SlimeServer

def Headed (message : Sexp) : Prop :=
  ∃ head items, message = .list (.symbol head :: items) ∧
    Text.sameIgnoringCase head ":emacs-rex" = true

/-- The message is that of a request: its head, the call of the operation, a value that may name the
package, the thread and the id. -/
inductive Conveys : Sexp → Request → Prop
  | intro {head operation : String} {args : List Sexp} {package thread : Sexp} {callId : Int64}
    (hhead : Text.sameIgnoringCase head ":emacs-rex" = true) :
    Conveys (.list [.symbol head, .list (.symbol operation :: args), package, thread,
      .integer callId]) ⟨operation, args, package.designator?, thread, callId⟩

namespace Request

theorem callOf_eq_ok_iff {form : Sexp} {operation : String} {args : List Sexp} :
    callOf form = .ok (operation, args) ↔ form = .list (.symbol operation :: args) := by
  constructor
  · intro h
    unfold callOf at h
    split at h
    · cases h
      rfl
    · cases h
    · cases h
  · rintro rfl
    rfl

theorem callOf_error {form : Sexp} {error : RequestError} (h : callOf form = .error error) :
    ∃ text, error = .malformed text := by
  unfold callOf at h
  split at h
  · cases h
  · cases h
    exact ⟨_, rfl⟩
  · cases h
    exact ⟨_, rfl⟩

/-- A request is read from five elements, of which the first may be anything. -/
theorem ofSexp_eq_ok_iff {message : Sexp} {r : Request} : ofSexp message = .ok r ↔
    ∃ first package, message = .list [first, .list (.symbol r.operation :: r.args), package,
      r.thread, .integer r.callId] ∧ r.package = package.designator? := by
  constructor
  · intro h
    unfold ofSexp at h
    split at h
    · rename_i first form package thread id
      split at h
      · rename_i callId
        cases hcall : callOf form with
        | error error =>
          rw [hcall] at h
          cases h
        | ok call =>
          obtain ⟨operation, args⟩ := call
          rw [hcall] at h
          cases h
          exact ⟨first, package, by rw [callOf_eq_ok_iff.1 hcall], rfl⟩
      · cases h
    · cases h
    · cases h
  · rintro ⟨first, package, rfl, hpackage⟩
    obtain ⟨operation, args, name?, thread, callId⟩ := r
    obtain rfl : name? = package.designator? := hpackage
    rfl

theorem ofSexp_error {message : Sexp} {error : RequestError} (h : ofSexp message = .error error) :
    ∃ text, error = .malformed text := by
  unfold ofSexp at h
  split at h
  · rename_i first form package thread id
    split at h
    · cases hcall : callOf form with
      | error error' =>
        rw [hcall] at h
        cases h
        exact callOf_error hcall
      | ok call =>
        rw [hcall] at h
        cases h
    · cases h
      exact ⟨_, rfl⟩
  · cases h
    exact ⟨_, rfl⟩
  · cases h
    exact ⟨_, rfl⟩

def normal (r : Request) : Request :=
  { r with args := Sexp.normalOf r.args, thread := r.thread.normal }

theorem normal_toSexp (r : Request) : r.toSexp.normal = r.normal.toSexp := by
  have hpackage : ((r.package.map Sexp.string).getD .nil).normal =
      (r.package.map Sexp.string).getD .nil := by
    cases r.package <;> rfl
  simp [toSexp, normal, Sexp.normal, Sexp.normalOf, Sexp.ofItems, hpackage]

theorem ofSexp_toSexp (r : Request) : ofSexp r.toSexp = .ok r := by
  refine ofSexp_eq_ok_iff.2 ⟨_, _, rfl, ?_⟩
  cases r.package <;> rfl

theorem readsBack_toSexp {r : Request} (hname : Sexp.ReadableName r.operation)
    (hvalues : ∀ value ∈ r.thread :: r.args, value.ReadsBack) : r.toSexp.ReadsBack := by
  obtain ⟨hthread, hargs⟩ := List.forall_mem_cons.1 hvalues
  have hhead : (Sexp.symbol ":emacs-rex").ReadsBack :=
    Sexp.readsBack_symbol_iff.2 (Sexp.isAtom_of_all (by decide) (by decide) (by decide))
  have hcall : (Sexp.list (.symbol r.operation :: r.args)).ReadsBack :=
    Sexp.readsBack_list.2 (List.forall_mem_cons.2 ⟨Sexp.readsBack_symbol_iff.2 hname, hargs⟩)
  have hpackage : ((r.package.map Sexp.string).getD .nil).ReadsBack := by
    cases r.package with
    | none => exact Sexp.readsBack_nil
    | some name => exact Sexp.readsBack_string name
  exact Sexp.readsBack_list.2 (by simp [hhead, hcall, hpackage, hthread])

end Request

namespace Inbound

variable {message : Sexp}

theorem isRequest_iff : isRequest message = true ↔ Headed message := by
  constructor
  · intro h
    unfold isRequest at h
    split at h
    · rename_i head items
      exact ⟨head, items, rfl, h⟩
    · cases h
  · rintro ⟨head, items, rfl, hhead⟩
    exact hhead

theorem ofSexp_of_headed (h : Headed message) :
    ofSexp message = (Request.ofSexp message).map .request := by
  rw [ofSexp, if_pos (isRequest_iff.2 h)]

theorem ofSexp_of_not_headed (h : ¬ Headed message) : ofSexp message = .ok (.other message) := by
  rw [ofSexp, if_neg fun hrequest => h (isRequest_iff.1 hrequest)]

end Inbound

theorem Conveys.headed {message : Sexp} {r : Request} (h : Conveys message r) : Headed message := by
  cases h with
  | intro hhead => exact ⟨_, _, rfl, hhead⟩

theorem conveys_iff {message : Sexp} {r : Request} :
    Conveys message r ↔ Headed message ∧ Request.ofSexp message = .ok r := by
  constructor
  · intro h
    refine ⟨h.headed, ?_⟩
    cases h with
    | intro hhead => rfl
  · rintro ⟨⟨head, items, hmessage, hhead⟩, hread⟩
    obtain ⟨first, package, rfl, hpackage⟩ := Request.ofSexp_eq_ok_iff.1 hread
    obtain ⟨operation, args, name?, thread, callId⟩ := r
    obtain rfl : name? = package.designator? := hpackage
    cases hmessage
    exact .intro hhead

/-- A request that is read back from its message is found in the bytes of the message. -/
theorem requestIn?_print {r : Request} (h : r.toSexp.ReadsBack) :
    Sexp.read r.toSexp.print = .ok r.normal.toSexp ∧
      Inbound.ofSexp r.normal.toSexp = .ok (.request r.normal) ∧
      requestIn? (Utf8.encode r.toSexp.print) = some r.normal := by
  have hread : Sexp.read r.toSexp.print = .ok r.normal.toSexp := by
    rw [← Request.normal_toSexp]
    exact h
  have hheaded : Headed r.normal.toSexp := ⟨_, _, rfl, by decide +kernel⟩
  have hrequest : Inbound.ofSexp r.normal.toSexp = .ok (.request r.normal) := by
    rw [Inbound.ofSexp_of_headed hheaded, Request.ofSexp_toSexp]
    rfl
  refine ⟨hread, hrequest, ?_⟩
  rw [requestIn?, Sexp.readBytes, Utf8.decode?_encode]
  simp only [hread, hrequest]

/-- Every message is a request, a malformed request or neither: a request when it conveys one, and
malformed when it is headed like one and conveys none. A request whose operation has a readable name
and whose values have readable symbols and no floats is found in the bytes of its message, with
`nil` for every empty list. -/
theorem messages_classified :
    (∀ message r, Inbound.ofSexp message = .ok (.request r) ↔ Conveys message r) ∧
    (∀ message, (∃ text, Inbound.ofSexp message = .error (.malformed text)) ↔
      Headed message ∧ ∀ r, ¬ Conveys message r) ∧
    (∀ message value, Inbound.ofSexp message = .ok (.other value) ↔
      ¬ Headed message ∧ value = message) ∧
    ∀ r : Request, Sexp.ReadableName r.operation →
      (∀ value ∈ r.thread :: r.args, value.Readable ∧ ∀ x, .float x ∉ value.leaves) →
      (∃ message, Sexp.read r.toSexp.print = .ok message ∧
        Inbound.ofSexp message = .ok (.request r.normal)) ∧
      requestIn? (Utf8.encode r.toSexp.print) = some r.normal := by
  refine ⟨fun message r => ?_, fun message => ?_, fun message value => ?_,
    fun r hname hvalues => ?_⟩
  · rw [conveys_iff]
    by_cases h : Headed message
    · rw [Inbound.ofSexp_of_headed h]
      cases Request.ofSexp message <;> simp [Except.map, h]
    · rw [Inbound.ofSexp_of_not_headed h]
      simp [h]
  · simp only [conveys_iff, not_and]
    by_cases h : Headed message
    · rw [Inbound.ofSexp_of_headed h]
      cases hread : Request.ofSexp message with
      | ok r => simp [Except.map, h]
      | error error =>
        obtain ⟨text, rfl⟩ := Request.ofSexp_error hread
        simp [Except.map, h]
    · rw [Inbound.ofSexp_of_not_headed h]
      simp [h]
  · by_cases h : Headed message
    · rw [Inbound.ofSexp_of_headed h]
      cases Request.ofSexp message <;> simp [Except.map, h]
    · rw [Inbound.ofSexp_of_not_headed h]
      simp [h, eq_comm]
  · have hback : ∀ value ∈ r.thread :: r.args, value.ReadsBack := fun value hvalue =>
      Sexp.readsBack_iff.2 ⟨(hvalues value hvalue).1,
        fun x hx => absurd hx ((hvalues value hvalue).2 x)⟩
    obtain ⟨hread, hrequest, hbytes⟩ := requestIn?_print (Request.readsBack_toSexp hname hback)
    exact ⟨⟨_, hread, hrequest⟩, hbytes⟩

def nestedRequest : Request :=
  ⟨"swank:foo", [.list [], .list [.string "(\"", .list [], .symbol "1+"]], some "CL-USER", .truth,
    Int64.minValue⟩

theorem messages_classified_nested :
    requestIn? (Utf8.encode
      "(:emacs-rex (swank:foo nil (\"(\\\"\" nil 1+)) \"CL-USER\" t -9223372036854775808)") =
      some ⟨"swank:foo", [.nil, .list [.string "(\"", .nil, .symbol "1+"]], some "CL-USER", .truth,
        Int64.minValue⟩ := by
  have hname : Sexp.ReadableName nestedRequest.operation :=
    Sexp.isAtom_of_all (by decide) (by decide +kernel) (by decide +kernel)
  have hplus : Sexp.ReadableName "1+" :=
    Sexp.isAtom_of_all (by decide) (by decide +kernel) (by decide +kernel)
  have hvalues : ∀ value ∈ nestedRequest.thread :: nestedRequest.args,
      value.Readable ∧ ∀ x, .float x ∉ value.leaves := by
    simp [nestedRequest, Sexp.Readable, Sexp.leaves, Sexp.leavesOf, hplus]
  have hprint : nestedRequest.toSexp.print =
      "(:emacs-rex (swank:foo nil (\"(\\\"\" nil 1+)) \"CL-USER\" t -9223372036854775808)" := by
    decide +kernel
  rw [← hprint]
  exact (messages_classified.2.2.2 nestedRequest hname hvalues).2

end SlimeServer
