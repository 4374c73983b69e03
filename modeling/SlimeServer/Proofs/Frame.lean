import SlimeServer.Frame
/-!
# Frames in a byte stream

The length in front of a payload is read back, and a frame is read from the bytes that have come
as soon as all of it is there, and not before.
-/
namespace SlimeServer.Frame

theorem hexValue?_hexDigit {n : Nat} (h : n < 16) : hexValue? (hexDigit n) = some n := by
  revert n
  decide

def span : Nat → Nat
  | 0 => 1
  | count + 1 => 16 * span count

theorem mapM_hexDigits (count n start : Nat) :
    ∃ digits, (hexDigits count n).mapM hexValue? = some digits ∧
      digits.foldl (fun n d => n * 16 + d) start = start * span count + n % span count := by
  induction count generalizing n with
  | zero => exact ⟨[], rfl, by simp [span, Nat.mod_one]⟩
  | succ count ih =>
    obtain ⟨digits, hd, hv⟩ := ih (n / 16)
    have hlast := hexValue?_hexDigit (Nat.mod_lt n (by decide : 0 < 16))
    refine ⟨digits ++ [n % 16], ?_, ?_⟩
    · simp [hexDigits, List.mapM_append, hd, hlast]
    · rw [List.foldl_append, hv, List.foldl_cons, List.foldl_nil, span, Nat.mod_mul,
        Nat.mul_comm 16 (span count), ← Nat.mul_assoc]
      omega

theorem parseHeader_hexDigits {n : Nat} (h : n ≤ maxPayload) :
    parseHeader (hexDigits headerLength n) = .ok n := by
  obtain ⟨digits, hd, hv⟩ := mapM_hexDigits headerLength n 0
  have hn : n < span headerLength := by
    simp only [maxPayload] at h
    simp only [headerLength, span]
    omega
  rw [Nat.mod_eq_of_lt hn] at hv
  simp only [parseHeader, hd, hv]
  simp

/-- Reading a count of bytes from those that have come. -/
theorem fill_putBack (count : Nat) (got bytes : List UInt8) :
    fill count got (putBack bytes []) =
      if bytes.length < count then .starved
      else .done (got ++ bytes.take count) (putBack (bytes.drop count) []) := by
  rcases Nat.eq_zero_or_pos count with rfl | hc
  · rw [fill_zero, if_neg (by omega)]
    simp
  cases bytes with
  | nil => simp [putBack, fill, hc, Nat.pos_iff_ne_zero.1 hc]
  | cons b rest =>
    have h0 : count ≠ 0 := Nat.pos_iff_ne_zero.1 hc
    by_cases hlt : (b :: rest).length < count
    · have hleft : count - (b :: rest).length ≠ 0 := by omega
      simp only [putBack, List.isEmpty_cons, Bool.false_eq_true, if_false, fill, h0, hlt, if_true,
        hleft]
    · simp only [putBack, List.isEmpty_cons, Bool.false_eq_true, if_false, fill, h0, hlt]

/-- The bytes of a frame. -/
def framed (payload : List UInt8) : List UInt8 := hexDigits headerLength payload.length ++ payload

theorem encode_eq_ok {payload : List UInt8} (h : payload.length ≤ maxPayload) :
    encode payload = .ok (framed payload) := by
  rw [encode, if_neg (by omega), framed]

theorem eq_framed_of_encode {payload frame : List UInt8} (h : encode payload = .ok frame) :
    payload.length ≤ maxPayload ∧ frame = framed payload := by
  rw [encode] at h
  split at h
  · cases h
  · cases h
    exact ⟨by omega, rfl⟩

theorem length_framed (payload : List UInt8) :
    (framed payload).length = headerLength + payload.length := by
  simp [framed]

section

variable {payload rest : List UInt8}

/-- A frame that has come is read, and what follows it is left. -/
theorem read_framed (h : payload.length ≤ maxPayload) :
    read (putBack (framed payload ++ rest) []) = .done payload (putBack rest []) := by
  have hlen : ¬ (framed payload ++ rest).length < headerLength := by
    rw [List.length_append, length_framed]
    omega
  have htake : (framed payload ++ rest).take headerLength =
      hexDigits headerLength payload.length := by
    rw [framed, List.append_assoc]
    exact List.take_left' (length_hexDigits _ _)
  have hdrop : (framed payload ++ rest).drop headerLength = payload ++ rest := by
    rw [framed, List.append_assoc]
    exact List.drop_left' (length_hexDigits _ _)
  have hpay : ¬ (payload ++ rest).length < payload.length := by
    rw [List.length_append]
    omega
  simp only [read, readHeader, readPayload, fill_putBack, hlen, if_false, Reading.andThen, htake,
    hdrop, List.nil_append, parseHeader_hexDigits h, hpay, List.take_left, List.drop_left]

/-- A frame that has not come to its end is not read. -/
theorem read_begun {bytes : List UInt8} (h : payload.length ≤ maxPayload)
    (hb : bytes <+: framed payload ++ rest) (hlen : bytes.length < (framed payload).length) :
    read (putBack bytes []) = .starved := by
  rw [length_framed] at hlen
  rcases Nat.lt_or_ge bytes.length headerLength with hk | hk
  · simp only [read, readHeader, fill_putBack, hk, if_true, Reading.andThen]
  · have htake : bytes.take headerLength = hexDigits headerLength payload.length := by
      rw [framed, List.append_assoc] at hb
      obtain ⟨more, rfl⟩ : hexDigits headerLength payload.length <+: bytes :=
        List.prefix_of_prefix_length_le (List.prefix_append _ _) hb (by simpa using hk)
      exact List.take_left' (length_hexDigits _ _)
    have hshort : (bytes.drop headerLength).length < payload.length := by
      rw [List.length_drop]
      omega
    simp only [read, readHeader, readPayload, fill_putBack, Nat.not_lt.2 hk, if_false,
      Reading.andThen, htake, List.nil_append, parseHeader_hexDigits h, hshort, if_true]

end

end SlimeServer.Frame
