/-!
# Numerals

Decimal and hexadecimal numerals of natural numbers and of integers of a fixed width.
-/
namespace SlimeServer.Numeral

def isDigit (c : Char) : Bool := '0' ≤ c && c ≤ '9'

def digitValue (c : Char) : Nat := c.toNat - '0'.toNat

def valueOf (digits : List Char) : Nat :=
  digits.foldl (fun n c => n * 10 + digitValue c) 0

def readDigits? (text : List Char) : Option Nat :=
  if text ≠ [] ∧ text.all isDigit then some (valueOf text) else none

/-- The magnitude as a natural number below `2 ^ bits`; a plus sign may stand in front. -/
def readUnsigned? (bits : Nat) (text : List Char) : Option Nat := do
  let digits := match text with
    | '+' :: rest => rest
    | _ => text
  let n ← readDigits? digits
  if n < Nat.pow 2 bits then some n else none

/-- An integer in the range of 64-bit two's complement; a sign may stand in front. -/
def readInt64? (text : List Char) : Option Int64 := do
  let (negative, digits) := match text with
    | '+' :: rest => (false, rest)
    | '-' :: rest => (true, rest)
    | _ => (false, text)
  let n ← readDigits? digits
  if negative then
    if n ≤ Nat.pow 2 63 then some (Int64.ofInt (-(n : Int))) else none
  else
    if n < Nat.pow 2 63 then some (Int64.ofInt n) else none

def writeNat (n : Nat) : List Char := Nat.toDigits 10 n

def writeInt (n : Int) : List Char :=
  if n < 0 then '-' :: writeNat n.natAbs else writeNat n.natAbs

def hexValue? (c : Char) : Option Nat :=
  if isDigit c then some (digitValue c)
  else if 'a' ≤ c ∧ c ≤ 'f' then some (c.toNat - 'a'.toNat + 10)
  else if 'A' ≤ c ∧ c ≤ 'F' then some (c.toNat - 'A'.toNat + 10)
  else none

def readBase? (base : Nat) (digit? : Char → Option Nat) (text : List Char) : Option Nat :=
  text.foldlM (fun n c => (digit? c).map (n * base + ·)) 0

@[simp] theorem valueOf_nil : valueOf [] = 0 := rfl

theorem valueOf_append_singleton (digits : List Char) (c : Char) :
    valueOf (digits ++ [c]) = valueOf digits * 10 + digitValue c := by
  simp [valueOf]

end SlimeServer.Numeral
