import SlimeServer.Number.Numeral
import SlimeServer.Text.Quoted
import SlimeServer.Text.Utf8
/-!
# Frames

A frame is a payload behind six lower-case hexadecimal digits that give its length in bytes. Both
sockets carry frames. Reading works on the deliveries of a byte stream: pieces of any size, polls
that find nothing, reads of zero bytes and failed reads. A frame is never handed back short.
-/
namespace SlimeServer

inductive FrameError where
  | connectionClosed
  | invalidHeader (text : String)
  | payloadTooLarge (length : Nat)
  | failed (reason : String)
  deriving DecidableEq, Repr

def FrameError.message : FrameError → String
  | connectionClosed => "Socket connection closed"
  | invalidHeader text => "Invalid frame header: " ++ Text.quoted text
  | payloadTooLarge length => s!"Frame payload of {length} bytes exceeds the 0xFFFFFF limit"
  | failed reason => "IO error: " ++ reason

/-- What one read of a byte stream brings. A read that takes fewer bytes than a piece holds leaves
the rest of the piece to the next read. -/
inductive Delivery where
  | bytes (piece : List UInt8)
  | pause
  | closed
  | failed (reason : String)
  deriving DecidableEq, Repr

/-- The result of reading from deliveries: a value or an error with the deliveries left over, or
nothing yet because the deliveries ran out. -/
inductive Reading (α : Type) where
  | done (value : α) (rest : List Delivery)
  | failed (error : FrameError) (rest : List Delivery)
  | starved
  deriving DecidableEq, Repr

namespace Reading

/-- Goes on with the deliveries that a first reading left over. -/
def andThen {α β : Type} (first : Reading α) (next : α → List Delivery → Reading β) :
    Reading β :=
  match first with
  | done value rest => next value rest
  | failed error rest => failed error rest
  | starved => starved

/-- A reading whose stream ends after its last delivery. -/
def orClosed {α : Type} : Reading α → Reading α
  | starved => failed .connectionClosed []
  | reading => reading

end Reading

namespace Frame

def headerLength : Nat := 6

/-- The longest payload that six digits can announce. -/
def maxPayload : Nat := 0xFFFFFF

def hexDigit (n : Nat) : UInt8 :=
  UInt8.ofNat (if n < 10 then 0x30 + n else 0x57 + n)

def hexDigits : Nat → Nat → List UInt8
  | 0, _ => []
  | count + 1, n => hexDigits count (n / 16) ++ [hexDigit (n % 16)]

/-- The payload behind its length. -/
def encode (payload : List UInt8) : Except FrameError (List UInt8) :=
  if maxPayload < payload.length then .error (.payloadTooLarge payload.length)
  else .ok (hexDigits headerLength payload.length ++ payload)

def hexValue? (b : UInt8) : Option Nat :=
  let n := b.toNat
  if 0x30 ≤ n ∧ n ≤ 0x39 then some (n - 0x30)
  else if 0x61 ≤ n ∧ n ≤ 0x66 then some (n - 0x57)
  else if 0x41 ≤ n ∧ n ≤ 0x46 then some (n - 0x37)
  else none

/-- The length that a header announces. Only hexadecimal digits are allowed in it. -/
def parseHeader (header : List UInt8) : Except FrameError Nat :=
  match header.mapM hexValue? with
  | some digits => .ok (digits.foldl (fun n d => n * 16 + d) 0)
  | none => .error (.invalidHeader (Utf8.decodeLossy header))

def putBack (rest : List UInt8) (deliveries : List Delivery) : List Delivery :=
  if rest.isEmpty then deliveries else .bytes rest :: deliveries

/-- Reads until `count` bytes have come in addition to those in `got`. A read of zero bytes means
that the other side is gone. -/
def fill (count : Nat) (got : List UInt8) : List Delivery → Reading (List UInt8)
  | [] => if count = 0 then .done got [] else .starved
  | delivery :: rest =>
    if count = 0 then .done got (delivery :: rest)
    else match delivery with
      | .bytes piece =>
        if piece.isEmpty then .failed .connectionClosed rest
        else if piece.length < count then fill (count - piece.length) (got ++ piece) rest
        else .done (got ++ piece.take count) (putBack (piece.drop count) rest)
      | .pause => fill count got rest
      | .closed => .failed .connectionClosed rest
      | .failed reason => .failed (.failed reason) rest

def readHeader (deliveries : List Delivery) : Reading Nat :=
  (fill headerLength [] deliveries).andThen fun header rest =>
    match parseHeader header with
    | .ok length => .done length rest
    | .error error => .failed error rest

def readPayload (length : Nat) (deliveries : List Delivery) : Reading (List UInt8) :=
  fill length [] deliveries

def read (deliveries : List Delivery) : Reading (List UInt8) :=
  (readHeader deliveries).andThen readPayload

def write (written payload : List UInt8) : Except FrameError (List UInt8) :=
  (encode payload).map (written ++ ·)

@[simp] theorem length_hexDigits (count n : Nat) : (hexDigits count n).length = count := by
  induction count generalizing n with
  | zero => rfl
  | succ count ih => simp [hexDigits, ih]

theorem fill_zero (got : List UInt8) (deliveries : List Delivery) :
    fill 0 got deliveries = .done got deliveries := by
  cases deliveries <;> simp [fill]

end Frame

/-- The bytes of deliveries and their count, together a bound on the reads they allow. -/
def volume : List Delivery → Nat
  | [] => 0
  | .bytes piece :: rest => piece.length + 1 + volume rest
  | _ :: rest => 1 + volume rest

theorem volume_putBack (piece : List UInt8) (rest : List Delivery) :
    volume (Frame.putBack piece rest) ≤ piece.length + 1 + volume rest := by
  simp only [Frame.putBack]
  split
  · omega
  · simp [volume]

theorem volume_fill {count : Nat} {got value : List UInt8} {deliveries rest : List Delivery}
    (h : Frame.fill count got deliveries = .done value rest) :
    volume rest ≤ volume deliveries ∧ (0 < count → volume rest < volume deliveries) := by
  -- A delivery counts for itself besides its bytes, so that a pause makes the volume less, too.
  induction deliveries generalizing count got with
  | nil =>
    simp only [Frame.fill] at h
    split at h
    · cases h
      simp [volume]
      omega
    · cases h
  | cons delivery more ih =>
    simp only [Frame.fill] at h
    split at h
    · cases h
      refine ⟨Nat.le_refl _, fun _ => by omega⟩
    · cases delivery with
      | bytes piece =>
        simp only at h
        split at h
        · cases h
        · rename_i hp
          split at h
          · have := (ih h).1
            simp only [volume]
            omega
          · cases h
            have := volume_putBack (piece.drop count) more
            simp only [List.length_drop] at this
            have hp' : 0 < piece.length := by
              cases piece with
              | nil => simp at hp
              | cons => simp
            simp only [volume]
            omega
      | pause =>
        have := (ih h).1
        simp only [volume]
        omega
      | closed => cases h
      | failed reason => cases h

/-- Reading a frame takes something from the stream. -/
theorem volume_read {deliveries rest : List Delivery} {payload : List UInt8}
    (h : Frame.read deliveries = .done payload rest) : volume rest < volume deliveries := by
  simp only [Frame.read, Frame.readHeader] at h
  generalize hf : Frame.fill Frame.headerLength [] deliveries = first at h
  cases first with
  | failed error more => cases h
  | starved => cases h
  | done header more =>
    simp only [Reading.andThen] at h
    generalize Frame.parseHeader header = parsed at h
    cases parsed with
    | error error => cases h
    | ok length =>
      have h₁ := (volume_fill hf).2 (by decide)
      have h₂ := (volume_fill h).1
      omega

end SlimeServer
