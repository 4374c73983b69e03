import SlimeServer.Number.Double
/-!
# Shortest decimal text of a floating-point number

The digits printed are the fewest that still read back as the same number, and among those the
nearest to it; of two equally near the larger is taken. Numbers from `10 ^ -4` up to `10 ^ 16` are
written positionally with at least one digit after the point, all others with an exponent.
-/
namespace SlimeServer.Double

structure Decimal where
  digits : Nat
  exponent : Int
  deriving DecidableEq, Repr

def ratio (m : Nat) (e : Int) : Nat × Nat :=
  if 0 ≤ e then (m * Nat.pow 2 e.toNat, 1) else (m, Nat.pow 2 (-e).toNat)

def inUnits (num den : Nat) (k : Int) : Nat × Nat :=
  if 0 ≤ k then (num, den * Nat.pow 10 k.toNat) else (num * Nat.pow 10 (-k).toNat, den)

/-- The multiple of `10 ^ k` nearest to `num / den`, the larger one of two. -/
def nearestAt (num den : Nat) (k : Int) : Nat :=
  let (a, b) := inUnits num den k
  (2 * a + b) / (2 * b)

/-- The other multiple of `10 ^ k` next to `num / den`. -/
def otherAt (num den : Nat) (k : Int) : Nat :=
  let (a, b) := inUnits num den k
  if nearestAt num den k = a / b then a / b + 1 else a / b

def readsBack (m : Nat) (e : Int) (d : Decimal) : Bool :=
  ofDecimal false d.digits d.exponent == finite false m e

/-- The count of digits of `num / den` before the point; not positive where it is small. -/
def magnitude (num den : Nat) : Int :=
  if den ≤ num then (Numeral.writeNat (num / den)).length
  else 1 - (Numeral.writeNat (den / num)).length

/-- A multiple of `10 ^ k` next to the number that reads back as it, the nearest one first. -/
def shortAt (m : Nat) (e : Int) (k : Int) : Option Decimal :=
  let (num, den) := ratio m e
  let near : Decimal := ⟨nearestAt num den k, k⟩
  let far : Decimal := ⟨otherAt num den k, k⟩
  if readsBack m e near then some near
  else if readsBack m e far then some far
  else none

def exact (m : Nat) (e : Int) : Decimal :=
  if 0 ≤ e then ⟨m * Nat.pow 2 e.toNat, 0⟩ else ⟨m * Nat.pow 5 (-e).toNat, e⟩

/-- The shortest decimal that reads back as the positive number `m * 2 ^ e`. Grids are tried from
the coarsest on, and the exact value stands at the end. -/
def shortest (m : Nat) (e : Int) : Decimal :=
  let (num, den) := ratio m e
  let top := magnitude num den
  ((List.range 20).findSome? fun i : Nat => shortAt m e (top + 1 - (i : Int))).getD (exact m e)

/-- The digits without zeros at the end, and the exponent that makes up for them. -/
def stripZeros (digits : List Char) (exponent : Int) : List Char × Int :=
  let kept := (digits.reverse.dropWhile (· = '0')).reverse
  (kept, exponent + (digits.length - kept.length : Nat))

/-- The text of digits whose point stands after the first `point` of them. -/
def positional (digits : List Char) (point : Int) : List Char :=
  if point ≤ 0 then
    '0' :: '.' :: (List.replicate (-point).toNat '0' ++ digits)
  else if point.toNat < digits.length then
    digits.take point.toNat ++ '.' :: digits.drop point.toNat
  else
    digits ++ List.replicate (point.toNat - digits.length) '0' ++ ['.', '0']

/-- The text of digits with one of them before the point, and an exponent. -/
def exponential (digits : List Char) (point : Int) : List Char :=
  let mantissa := match digits with
    | [] => ['0']
    | [d] => [d]
    | d :: rest => d :: '.' :: rest
  mantissa ++ 'e' :: Numeral.writeInt (point - 1)

def write : Double → List Char
  | nan => "NaN".toList
  | infinite negative => (if negative then "-inf" else "inf").toList
  | finite negative m e =>
    let sign := if negative then ['-'] else []
    if m = 0 then sign ++ "0.0".toList
    else
      let d := shortest m e
      let (digits, exponent) := stripZeros (Numeral.writeNat d.digits) d.exponent
      let point : Int := digits.length + exponent
      sign ++ if -4 < point ∧ point ≤ 16 then positional digits point
        else exponential digits point

end SlimeServer.Double
