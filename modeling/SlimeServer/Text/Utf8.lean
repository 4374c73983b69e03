/-!
# UTF-8

Writing characters as bytes, and reading bytes back by a decoder that takes one byte at a time.
The decoder splits every byte sequence into well-formed characters and malformed pieces; a piece
is as long as some character could still have started with it. Feeding is a left fold, so what a
prefix was decoded to does not change when more bytes arrive.
-/
namespace SlimeServer.Utf8

def tailByte (n : Nat) : UInt8 := UInt8.ofNat (0x80 + n % 64)

/-- The one to four bytes of a character. -/
def encodeChar (c : Char) : List UInt8 :=
  let n := c.toNat
  if n < 0x80 then [UInt8.ofNat n]
  else if n < 0x800 then [UInt8.ofNat (0xC0 + n / 64), tailByte n]
  else if n < 0x10000 then [UInt8.ofNat (0xE0 + n / 4096), tailByte (n / 64), tailByte n]
  else [UInt8.ofNat (0xF0 + n / 262144), tailByte (n / 4096), tailByte (n / 64), tailByte n]

def encode (text : String) : List UInt8 :=
  text.toList.flatMap encodeChar

/-- What a decoder still expects inside a character: how many bytes, the range of the next one,
the bits collected and the number of bytes taken. -/
structure Owed where
  count : Nat
  low : Nat
  high : Nat
  bits : Nat
  taken : Nat
  deriving DecidableEq, Repr

/-- A decoder between bytes. `items` holds, newest first, a character or `none` for a malformed
piece. -/
structure Decoder where
  owed : Option Owed
  items : List (Option Char)
  deriving DecidableEq, Repr

def Decoder.start : Decoder := ⟨none, []⟩

/-- The first byte of a character: a whole character, one that owes more, or no character. -/
def Decoder.first (items : List (Option Char)) (b : UInt8) : Decoder :=
  let n := b.toNat
  if n < 0x80 then ⟨none, some (Char.ofNat n) :: items⟩
  else if 0xC2 ≤ n ∧ n ≤ 0xDF then ⟨some ⟨1, 0x80, 0xBF, n - 0xC0, 1⟩, items⟩
  else if n = 0xE0 then ⟨some ⟨2, 0xA0, 0xBF, 0, 1⟩, items⟩
  else if n = 0xED then ⟨some ⟨2, 0x80, 0x9F, 0xD, 1⟩, items⟩
  else if 0xE1 ≤ n ∧ n ≤ 0xEF then ⟨some ⟨2, 0x80, 0xBF, n - 0xE0, 1⟩, items⟩
  else if n = 0xF0 then ⟨some ⟨3, 0x90, 0xBF, 0, 1⟩, items⟩
  else if 0xF1 ≤ n ∧ n ≤ 0xF3 then ⟨some ⟨3, 0x80, 0xBF, n - 0xF0, 1⟩, items⟩
  else if n = 0xF4 then ⟨some ⟨3, 0x80, 0x8F, 4, 1⟩, items⟩
  else ⟨none, none :: items⟩

/-- One more byte. A byte that cannot go on with the character ends a malformed piece and is
looked at again as a first byte. -/
def Decoder.feed (d : Decoder) (b : UInt8) : Decoder :=
  match d.owed with
  | none => Decoder.first d.items b
  | some o =>
    if o.low ≤ b.toNat ∧ b.toNat ≤ o.high then
      let bits := o.bits * 64 + (b.toNat - 0x80)
      if o.count = 1 then ⟨none, some (Char.ofNat bits) :: d.items⟩
      else ⟨some ⟨o.count - 1, 0x80, 0xBF, bits, o.taken + 1⟩, d.items⟩
    else Decoder.first (none :: d.items) b

def Decoder.run (d : Decoder) (bytes : List UInt8) : Decoder :=
  bytes.foldl Decoder.feed d

theorem Decoder.run_append (d : Decoder) (a b : List UInt8) :
    d.run (a ++ b) = (d.run a).run b := by
  simp [Decoder.run]

def Decoder.finish (d : Decoder) : List (Option Char) :=
  (if d.owed.isSome then none :: d.items else d.items).reverse

/-- The text of the bytes, or nothing where they are not UTF-8. -/
def decode? (bytes : List UInt8) : Option String :=
  ((Decoder.start.run bytes).finish.mapM id).map String.ofList

/-- The text of the bytes with every malformed piece replaced by U+FFFD. -/
def decodeLossy (bytes : List UInt8) : String :=
  String.ofList ((Decoder.start.run bytes).finish.map (·.getD '\uFFFD'))

/-- How many bytes at the end belong to a character that is not complete, where nothing before
them is malformed; otherwise zero. -/
def unfinishedTail (bytes : List UInt8) : Nat :=
  let d := Decoder.start.run bytes
  match d.owed with
  | some o => if d.items.all Option.isSome then o.taken else 0
  | none => 0

end SlimeServer.Utf8
