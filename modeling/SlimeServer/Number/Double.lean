import SlimeServer.Number.Numeral
/-!
# Binary floating-point numbers

The numbers of the 64-bit binary format as exact integers times powers of two, and the rounding
of a quotient to the nearest of them. A tie goes to the neighbour whose mantissa is even.
-/
namespace SlimeServer

/-- A number of the 64-bit binary format. `finite negative mantissa exponent` stands for
`mantissa * 2 ^ exponent`; `Double.Canonical` says which pairs occur. -/
inductive Double where
  | nan
  | infinite (negative : Bool)
  | finite (negative : Bool) (mantissa : Nat) (exponent : Int)
  deriving DecidableEq, Repr, Inhabited

namespace Double

def minExponent : Int := -1074

def maxExponent : Int := 971

/-- The least mantissa of 53 bits. -/
def leastMantissa : Nat := Nat.pow 2 52

def topMantissa : Nat := Nat.pow 2 53

/-- The mantissa has 53 bits, or fewer where the exponent is the least one. -/
def Canonical : Double → Prop
  | finite _ m e =>
    m < topMantissa ∧ minExponent ≤ e ∧ e ≤ maxExponent ∧ (leastMantissa ≤ m ∨ e = minExponent)
  | _ => True

instance (x : Double) : Decidable x.Canonical := by
  cases x <;> simp only [Canonical] <;> infer_instance

def zero (negative : Bool) : Double := finite negative 0 minExponent

/-- Numeric equality: not a number equals nothing, and the two zeros are equal. -/
def same : Double → Double → Bool
  | nan, _ => false
  | _, nan => false
  | finite a m e, finite b n f => (a == b && m == n && e == f) || (m == 0 && n == 0)
  | x, y => x == y

/-- The natural number nearest to `num / den`, the even one of two. -/
def roundDiv (num den : Nat) : Nat :=
  let q := num / den
  let twice := 2 * (num % den)
  if twice > den ∨ (twice = den ∧ q % 2 = 1) then q + 1 else q

/-- The pair `(num * 2 ^ (-e), den)` or `(num, den * 2 ^ e)`, whose quotient is
`num / den / 2 ^ e`. -/
def scaled (num den : Nat) (e : Int) : Nat × Nat :=
  if 0 ≤ e then (num, den * Nat.pow 2 e.toNat) else (num * Nat.pow 2 (-e).toNat, den)

/-- The exponent at which `num / den` has a mantissa of 53 bits, or the least exponent. -/
def exponentFor (num den : Nat) : Int :=
  let guess : Int := (num.log2 : Int) - den.log2 - 52
  let (a, b) := scaled num den guess
  let e := if a < b * leastMantissa then guess - 1 else guess
  max e minExponent

/-- The number nearest to `num / den`; beyond the largest one it is infinite. -/
def ofRatio (negative : Bool) (num den : Nat) : Double :=
  if num = 0 then zero negative
  else
    let e := exponentFor num den
    let (a, b) := scaled num den e
    let m := roundDiv a b
    let (m, e) := if m = topMantissa then (leastMantissa, e + 1) else (m, e)
    if e > maxExponent then infinite negative else finite negative m e

/-- The number nearest to `digits * 10 ^ exponent`. Exponents far outside the format's range are
decided by the count of digits alone. -/
def ofDecimal (negative : Bool) (digits : Nat) (exponent : Int) : Double :=
  if digits = 0 then zero negative
  else
    let size : Int := (Numeral.writeNat digits).length + exponent
    if size > 310 then infinite negative
    else if size < -330 then zero negative
    else if 0 ≤ exponent then ofRatio negative (digits * Nat.pow 10 exponent.toNat) 1
    else ofRatio negative digits (Nat.pow 10 (-exponent).toNat)

/-- The digits before and after the point and the exponent of a number in scientific notation. -/
structure Scientific where
  negative : Bool
  whole : List Char
  fraction : List Char
  exponent : Int
  deriving DecidableEq, Repr

/-- Splits `[sign] digits [. digits] [e [sign] digits]`, where at least one digit stands before
or after the point. -/
def scientific? (text : List Char) : Option Scientific := do
  let (negative, body) := match text with
    | '+' :: rest => (false, rest)
    | '-' :: rest => (true, rest)
    | _ => (false, text)
  let (whole, rest) := body.span Numeral.isDigit
  let (fraction, rest) := match rest with
    | '.' :: more => more.span Numeral.isDigit
    | _ => ([], rest)
  if whole = [] ∧ fraction = [] then none
  else match rest with
    | [] => some ⟨negative, whole, fraction, 0⟩
    | c :: more =>
      if c = 'e' ∨ c = 'E' then do
        let (down, digits) := match more with
          | '+' :: ds => (false, ds)
          | '-' :: ds => (true, ds)
          | _ => (false, more)
        let n ← Numeral.readDigits? digits
        some ⟨negative, whole, fraction, if down then -(n : Int) else n⟩
      else none

def ofChars? (text : List Char) : Option Double :=
  (scientific? text).map fun s =>
    ofDecimal s.negative (Numeral.valueOf (s.whole ++ s.fraction))
      (s.exponent - s.fraction.length)

end Double
end SlimeServer
