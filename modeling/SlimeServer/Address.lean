import SlimeServer.Number.Numeral
import SlimeServer.Text.Case
/-!
# Addresses

The addresses that the program can listen on. An IPv4 address is written as one to four numbers
between points: each but the last is a byte, and the last one fills the bytes that are left.
-/
namespace SlimeServer.Address

def digit? (base : Nat) (c : Char) : Option Nat := (Numeral.hexValue? c).filter (· < base)

/-- A number in decimal digits, in octal digits after a zero or in hexadecimal digits after `0x`. -/
def number? (text : List Char) : Option Nat :=
  match text with
  | '0' :: c :: rest =>
    if c = 'x' ∨ c = 'X' then
      if rest.isEmpty then none else Numeral.readBase? 16 (digit? 16) rest
    else Numeral.readBase? 8 (digit? 8) (c :: rest)
  | _ => Numeral.readDigits? text

/-- The number of an address of `size` bytes that is made of the given numbers. -/
def ofNumbers? : Nat → List Nat → Option Nat
  | _, [] => none
  | size, [last] => if last < Nat.pow 256 size then some last else none
  | 0, _ => none
  | size + 1, byte :: rest =>
    if byte < 256 then (ofNumbers? size rest).map (byte * Nat.pow 256 size + ·) else none

def readIPv4? (text : String) : Option Nat := do
  let numbers ← (text.splitOn ".").mapM fun part => number? part.toList
  if numbers.length ≤ 4 then ofNumbers? 4 numbers else none

/-- IPv4 addresses that can be listened on without belonging to an interface: the unspecified
address, those of the machine itself, those of groups, and that of all machines. -/
def isCommonIPv4 (address : Nat) : Bool :=
  let first := address / Nat.pow 256 3
  address = 0 || first = 127 || (224 ≤ first && first < 240) || address = Nat.pow 256 4 - 1

def canListen (host : String) : Bool :=
  Text.sameIgnoringCase host "localhost" || host = "::1" || host = "::" ||
    ((readIPv4? host).map isCommonIPv4).getD false

end SlimeServer.Address
