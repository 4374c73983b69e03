import Mathlib.Data.List.Forall2
import Mathlib.Data.Nat.Digits.Defs
import SlimeServer.Proofs.FrameDelivery
/-!
# Reading one frame exactly

What one reading of a frame comes to is settled by the bytes that arrive and by what ends them: a
header that is none, a whole frame, or a stream cut short. The first two take just the bytes that
they are made of.
-/
namespace SlimeServer.Frame

def Digit (b : UInt8) (value : Nat) : Prop :=
  (Utf8.encode "0123456789abcdef")[value]? = some b ∨
    (Utf8.encode "0123456789ABCDEF")[value]? = some b

instance (b : UInt8) (value : Nat) : Decidable (Digit b value) :=
  inferInstanceAs (Decidable (_ ∨ _))

def Announces (header : List UInt8) (n : Nat) : Prop :=
  ∃ digits, List.Forall₂ Digit header digits ∧ n = Nat.ofDigits 16 digits.reverse

section

variable {b : UInt8} {value n : Nat} {header : List UInt8} {digits : List Nat}

theorem digit_of_hexValue? (h : hexValue? b = some value) : Digit b value := by
  have hall : ∀ n < 256, ∀ v ∈ hexValue? (UInt8.ofNat n), Digit (UInt8.ofNat n) v := by
    decide +kernel
  have hb : UInt8.ofNat b.toNat = b := UInt8.ofNat_toNat
  rw [← hb] at h ⊢
  exact hall b.toNat b.toNat_lt value h

theorem hexValue?_of_digit (h : Digit b value) : hexValue? b = some value := by
  have hlower : ∀ v < 16, ∀ c ∈ (Utf8.encode "0123456789abcdef")[v]?, hexValue? c = some v := by
    decide +kernel
  have hupper : ∀ v < 16, ∀ c ∈ (Utf8.encode "0123456789ABCDEF")[v]?, hexValue? c = some v := by
    decide +kernel
  rcases h with h | h
  · obtain ⟨hvalue, -⟩ := List.getElem?_eq_some_iff.1 h
    exact hlower value hvalue b h
  · obtain ⟨hvalue, -⟩ := List.getElem?_eq_some_iff.1 h
    exact hupper value hvalue b h

theorem hexValue?_eq_some_iff : hexValue? b = some value ↔ Digit b value :=
  ⟨digit_of_hexValue?, hexValue?_of_digit⟩

theorem mapM_hexValue?_eq_some_iff :
    header.mapM hexValue? = some digits ↔ List.Forall₂ Digit header digits := by
  induction header generalizing digits with
  | nil => simp [eq_comm]
  | cons b header ih =>
    rw [List.mapM_cons, List.forall₂_cons_left_iff]
    simp only [Option.bind_eq_bind, Option.bind_eq_some_iff, hexValue?_eq_some_iff, ih]
    constructor
    · rintro ⟨value, hvalue, values, hvalues, heq⟩
      exact ⟨value, values, hvalue, hvalues, (Option.some.inj heq).symm⟩
    · rintro ⟨value, values, hvalue, hvalues, heq⟩
      exact ⟨value, hvalue, values, hvalues, by rw [heq]; rfl⟩

theorem foldl_digits (digits : List Nat) :
    digits.foldl (fun n d => n * 16 + d) 0 = Nat.ofDigits 16 digits.reverse := by
  rw [Nat.ofDigits_eq_foldr, List.foldr_reverse]
  congr 1
  funext n d
  simp only [Nat.cast_id]
  omega

theorem exists_digits_iff :
    (∃ digits, List.Forall₂ Digit header digits) ↔ ∀ b ∈ header, ∃ value, Digit b value := by
  induction header with
  | nil => simp
  | cons b header ih =>
    rw [List.forall_mem_cons, ← ih]
    simp only [List.forall₂_cons_left_iff]
    constructor
    · rintro ⟨_, value, values, hvalue, hvalues, -⟩
      exact ⟨⟨value, hvalue⟩, values, hvalues⟩
    · rintro ⟨⟨value, hvalue⟩, values, hvalues⟩
      exact ⟨value :: values, value, values, hvalue, hvalues, rfl⟩

theorem parseHeader_of_announces (h : Announces header n) : parseHeader header = .ok n := by
  obtain ⟨digits, hdigits, rfl⟩ := h
  rw [parseHeader, mapM_hexValue?_eq_some_iff.2 hdigits, ← foldl_digits]

theorem parseHeader_of_not_digit (h : ∃ b ∈ header, ∀ value, ¬ Digit b value) :
    parseHeader header = .error (.invalidHeader (Utf8.decodeLossy header)) := by
  obtain ⟨b, hb, hnone⟩ := h
  cases hdigits : header.mapM hexValue? with
  | none => rw [parseHeader, hdigits]
  | some digits =>
    have hall := exists_digits_iff.1 ⟨digits, mapM_hexValue?_eq_some_iff.1 hdigits⟩
    obtain ⟨value, hvalue⟩ := hall b hb
    exact absurd hvalue (hnone value)

theorem announces_or_not_digit (header : List UInt8) :
    (∃ n, Announces header n) ∨ ∃ b ∈ header, ∀ value, ¬ Digit b value := by
  by_cases hall : ∀ b ∈ header, ∃ value, Digit b value
  · obtain ⟨digits, hdigits⟩ := exists_digits_iff.2 hall
    exact .inl ⟨_, digits, hdigits, rfl⟩
  · right
    simpa only [not_forall, not_exists, exists_prop] using hall

theorem announces_of_parseHeader (h : parseHeader header = .ok n) : Announces header n := by
  rcases announces_or_not_digit header with ⟨n', hn'⟩ | hnone
  · cases h.symm.trans (parseHeader_of_announces hn')
    exact hn'
  · cases h.symm.trans (parseHeader_of_not_digit hnone)

end

/-- The bytes of a stream start with no header: among as many as a header has there is one that is
no digit. -/
def Malformed (bytes : List UInt8) : Prop :=
  headerLength ≤ bytes.length ∧ ∃ b ∈ bytes.take headerLength, ∀ value, ¬ Digit b value

def Whole (bytes : List UInt8) (n : Nat) : Prop :=
  Announces (bytes.take headerLength) n ∧ headerLength + n ≤ bytes.length

def answer {α : Type} : Reading α → Option (Except FrameError α)
  | .done value _ => some (.ok value)
  | .failed error _ => some (.error error)
  | .starved => none

section

variable {deliveries deliveries' : List Delivery} {n : Nat}

theorem read_malformed (h : Malformed (arrived deliveries)) : ∃ rest,
    read deliveries = .failed
      (.invalidHeader (Utf8.decodeLossy ((arrived deliveries).take headerLength))) rest ∧
    Takes deliveries ((arrived deliveries).take headerLength) rest :=
  read_refused h.1 (parseHeader_of_not_digit h.2)

theorem read_whole (h : Whole (arrived deliveries) n) : ∃ rest,
    read deliveries = .done (((arrived deliveries).drop headerLength).take n) rest ∧
    Takes deliveries ((arrived deliveries).take (headerLength + n)) rest :=
  read_takes h.2 (parseHeader_of_announces h.1)

theorem read_cutShort (hmalformed : ¬ Malformed (arrived deliveries))
    (hwhole : ∀ n, ¬ Whole (arrived deliveries) n) : read deliveries = cutShort deliveries := by
  rcases Nat.lt_or_ge (arrived deliveries).length headerLength with hlength | hlength
  · exact read_header_cutShort hlength
  rcases announces_or_not_digit ((arrived deliveries).take headerLength) with ⟨n, hheader⟩ | hnone
  · apply read_payload_cutShort hlength (parseHeader_of_announces hheader)
    apply Nat.lt_of_not_le
    exact fun hle => hwhole n ⟨hheader, hle⟩
  · exact absurd ⟨hlength, hnone⟩ hmalformed

theorem whole_of_read {payload : List UInt8} {rest : List Delivery}
    (h : read deliveries = .done payload rest) : Whole (arrived deliveries) payload.length := by
  obtain ⟨hlength, hparse⟩ := arrived_of_read h
  exact ⟨announces_of_parseHeader hparse, hlength⟩

/-- The answer is settled by the bytes that arrive and the error that ends them. -/
theorem answer_read_congr (hbytes : arrived deliveries' = arrived deliveries)
    (hending : (ending deliveries').map Prod.fst = (ending deliveries).map Prod.fst) :
    answer (read deliveries') = answer (read deliveries) := by
  by_cases hmalformed : Malformed (arrived deliveries)
  · obtain ⟨rest, hread, -⟩ := read_malformed hmalformed
    rw [← hbytes] at hmalformed
    obtain ⟨rest', hread', -⟩ := read_malformed hmalformed
    rw [hread, hread', hbytes]
    rfl
  by_cases hwhole : ∃ n, Whole (arrived deliveries) n
  · obtain ⟨n, hwhole⟩ := hwhole
    obtain ⟨rest, hread, -⟩ := read_whole hwhole
    rw [← hbytes] at hwhole
    obtain ⟨rest', hread', -⟩ := read_whole hwhole
    rw [hread, hread', hbytes]
    rfl
  · have hnone : ∀ n, ¬ Whole (arrived deliveries) n := not_exists.1 hwhole
    have hread := read_cutShort hmalformed hnone
    rw [← hbytes] at hmalformed hnone
    have hread' := read_cutShort hmalformed hnone
    rw [hread, hread', cutShort, cutShort]
    cases hend : ending deliveries <;> cases hend' : ending deliveries' <;> simp_all [answer]

end

/-- Reading a frame from a stream. Bytes that start with no header are refused, and only those that
stand in its place are taken. The payload of a whole frame is handed out, and only that frame is
taken. In every other case the reading ends as the stream does. So a payload is never short, and
pieces and pauses do not matter. -/
theorem read_exact (deliveries : List Delivery) :
    (Malformed (arrived deliveries) → ∃ rest,
      read deliveries = .failed
        (.invalidHeader (Utf8.decodeLossy ((arrived deliveries).take headerLength))) rest ∧
      Takes deliveries ((arrived deliveries).take headerLength) rest) ∧
    (∀ n, Whole (arrived deliveries) n → ∃ rest,
      read deliveries = .done (((arrived deliveries).drop headerLength).take n) rest ∧
      Takes deliveries ((arrived deliveries).take (headerLength + n)) rest) ∧
    (¬ Malformed (arrived deliveries) → (∀ n, ¬ Whole (arrived deliveries) n) →
      read deliveries = cutShort deliveries) ∧
    (∀ payload rest, read deliveries = .done payload rest →
      Whole (arrived deliveries) payload.length) ∧
    ∀ deliveries', arrived deliveries' = arrived deliveries →
      (ending deliveries').map Prod.fst = (ending deliveries).map Prod.fst →
      answer (read deliveries') = answer (read deliveries) :=
  ⟨read_malformed, fun _ => read_whole, read_cutShort, fun _ _ => whole_of_read,
    fun _ => answer_read_congr⟩

/-- A frame in three pieces with a pause, a digit in upper case, and the start of the next header in
the last piece; then the stream breaks off. -/
def torn : List Delivery :=
  [.bytes (Utf8.encode "000"), .pause, .bytes (Utf8.encode "00Bhe"),
    .bytes (Utf8.encode "llo world00"), .failed "reset"]

theorem announces_torn : Announces ((arrived torn).take headerLength) 11 :=
  ⟨[0, 0, 0, 0, 0, 11], by decide +kernel, by decide⟩

theorem read_exact_torn :
    (∃ rest, read torn = .done (Utf8.encode "hello world") rest ∧
      Takes torn ((arrived torn).take 17) rest) ∧
    read (torn.take 3 ++ torn.drop 4) = .failed (.failed "reset") [] := by
  obtain ⟨-, hwhole, -⟩ := read_exact torn
  obtain ⟨-, -, hcut, -⟩ := read_exact (torn.take 3 ++ torn.drop 4)
  have hheader : parseHeader ((arrived (torn.take 3 ++ torn.drop 4)).take headerLength) = .ok 11 :=
    parseHeader_of_announces announces_torn
  refine ⟨hwhole 11 ⟨announces_torn, by decide⟩, hcut ?_ ?_⟩
  · rintro ⟨-, hnone⟩
    cases hheader.symm.trans (parseHeader_of_not_digit hnone)
  · rintro n ⟨hn, hlength⟩
    cases hheader.symm.trans (parseHeader_of_announces hn)
    exact absurd hlength (by decide)

end SlimeServer.Frame
