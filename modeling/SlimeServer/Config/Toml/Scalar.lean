import SlimeServer.Config.Toml.Value
import SlimeServer.Number.Numeral
/-!
# Scalars of TOML

Strings in their four forms, integers in four bases, floats, booleans, and dates with times. Each
reader takes the characters from where a value starts and gives the value with those after it.
-/
namespace SlimeServer.Toml

def isPlain (c : Char) : Bool :=
  c = '\t' || (0x20 ≤ c.toNat && c.toNat != 0x7F)

/-- A newline, which is a line feed with or without a carriage return before it, and the text
after it. -/
def splitNewline? : List Char → Option (List Char × List Char)
  | '\n' :: rest => some (['\n'], rest)
  | '\r' :: '\n' :: rest => some (['\r', '\n'], rest)
  | _ => none

def newline? (text : List Char) : Option (List Char) := (splitNewline? text).map Prod.snd

def isSpace (c : Char) : Bool := c = ' ' || c = '\t'

def skipSpaces (text : List Char) : List Char := text.dropWhile isSpace

def character? (n : Nat) : Option Char :=
  if h : n.isValidChar then some (Char.ofNatAux n h) else none

def hexCharacter? (count : Nat) (text : List Char) : Option (Char × List Char) := do
  let digits := text.take count
  if digits.length = count then
    let n ← Numeral.readBase? 16 Numeral.hexValue? digits
    some (← character? n, text.drop count)
  else none

/-- The character after a backslash. -/
def escaped? : List Char → Option (Char × List Char)
  | 'b' :: rest => some ('\x08', rest)
  | 't' :: rest => some ('\t', rest)
  | 'n' :: rest => some ('\n', rest)
  | 'f' :: rest => some ('\x0c', rest)
  | 'r' :: rest => some ('\r', rest)
  | 'e' :: rest => some ('\x1b', rest)
  | '"' :: rest => some ('"', rest)
  | '\\' :: rest => some ('\\', rest)
  | 'x' :: rest => hexCharacter? 2 rest
  | 'u' :: rest => hexCharacter? 4 rest
  | 'U' :: rest => hexCharacter? 8 rest
  | _ => none

/-- Spaces, tabs and newlines dropped from the front. -/
def skipBlankLines : Nat → List Char → List Char
  | 0, text => text
  | fuel + 1, text =>
    let text := skipSpaces text
    match newline? text with
    | some rest => skipBlankLines fuel rest
    | none => text

def continued? (text : List Char) : Option (List Char) :=
  (newline? (skipSpaces text)).map fun rest => skipBlankLines rest.length rest

/-- A quoted string on one line, after its opening quote. -/
def basicBody? : Nat → List Char → List Char → Option (String × List Char)
  | 0, _, _ => none
  | _ + 1, _, [] => none
  | fuel + 1, got, c :: rest =>
    if c = '"' then some (String.ofList got.reverse, rest)
    else if c = '\\' then do
      let (e, rest) ← escaped? rest
      basicBody? fuel (e :: got) rest
    else if isPlain c then basicBody? fuel (c :: got) rest
    else none

def literalBody? : List Char → List Char → Option (String × List Char)
  | _, [] => none
  | got, c :: rest =>
    if c = '\'' then some (String.ofList got.reverse, rest)
    else if isPlain c then literalBody? (c :: got) rest
    else none

def countQuotes (quote : Char) (text : List Char) : Nat :=
  ((text.take 5).takeWhile (· = quote)).length

/-- A string over several lines, after its opening quotes. Up to two quotes may stand before the
closing three. Newlines inside it stay as they are written. -/
def longBody? (quote : Char) : Nat → List Char → List Char → Option (String × List Char)
  | 0, _, _ => none
  | _ + 1, _, [] => none
  | fuel + 1, got, c :: rest =>
    if c = quote then
      let n := countQuotes quote (c :: rest)
      if 3 ≤ n then
        some (String.ofList (List.replicate (n - 3) quote ++ got).reverse, (c :: rest).drop n)
      else longBody? quote fuel (c :: got) rest
    else match splitNewline? (c :: rest) with
      | some (newline, rest) => longBody? quote fuel (newline.reverse ++ got) rest
      | none =>
        if c = '\\' ∧ quote = '"' then
          match continued? rest with
          | some rest => longBody? quote fuel got rest
          | none => do
            let (e, rest) ← escaped? rest
            longBody? quote fuel (e :: got) rest
        else if isPlain c then longBody? quote fuel (c :: got) rest
        else none

/-- A newline right after the opening quotes does not belong to the string. -/
def long? (quote : Char) (text : List Char) : Option (String × List Char) :=
  let body := (newline? text).getD text
  longBody? quote (body.length + 1) [] body

def shortString? : List Char → Option (String × List Char)
  | '"' :: rest => basicBody? (rest.length + 1) [] rest
  | '\'' :: rest => literalBody? [] rest
  | _ => none

def string? : List Char → Option (String × List Char)
  | '"' :: '"' :: '"' :: rest => long? '"' rest
  | '\'' :: '\'' :: '\'' :: rest => long? '\'' rest
  | text => shortString? text

/-- Digits among which single underscores may stand. -/
def groupedDigits? (isDigit : Char → Bool) (text : List Char) : Option (List Char) :=
  let rec go : Bool → List Char → Option (List Char)
    | afterDigit, [] => if afterDigit then some [] else none
    | afterDigit, c :: rest =>
      if c = '_' then if afterDigit then go false rest else none
      else if isDigit c then (go true rest).map (c :: ·)
      else none
  go false text

def signed (text : List Char) : Bool × List Char :=
  match text with
  | '-' :: rest => (true, rest)
  | '+' :: rest => (false, rest)
  | _ => (false, text)

/-- Decimal digits without a needless zero in front. -/
def decimal? (text : List Char) : Option (List Char) := do
  let digits ← groupedDigits? Numeral.isDigit text
  if text.length ≠ 1 ∧ text.head? = some '0' then none else some digits

def basedInteger? (base : Nat) (text : List Char) : Option Int := do
  let digits ← groupedDigits?
    (fun c => ((Numeral.hexValue? c).map fun v => decide (v < base)).getD false) text
  let n ← Numeral.readBase? base Numeral.hexValue? digits
  some (n : Int)

def inIntegerRange (n : Int) : Bool :=
  if n < 0 then n.natAbs ≤ Nat.pow 2 127 else n.natAbs < Nat.pow 2 128

def integer? (token : List Char) : Option Int := do
  let n ← match token with
    | '0' :: 'x' :: rest => basedInteger? 16 rest
    | '0' :: 'o' :: rest => basedInteger? 8 rest
    | '0' :: 'b' :: rest => basedInteger? 2 rest
    | _ => do
      let (negative, body) := signed token
      let digits ← decimal? body
      let n : Int := Numeral.valueOf digits
      some (if negative then -n else n)
  if inIntegerRange n then some n else none

/-- A float: digits with a fraction, an exponent or both, or one of the names of the numbers that
have no digits. -/
def float? (token : List Char) : Option Double := do
  let (negative, body) := signed token
  if body = ['i', 'n', 'f'] then some (.infinite negative)
  else if body = ['n', 'a', 'n'] then some .nan
  else
    let (mantissa, exponent) := body.span fun c => c ≠ 'e' && c ≠ 'E'
    let (whole, fraction) := mantissa.span (· ≠ '.')
    if fraction.isEmpty && exponent.isEmpty then none
    else
      let wholeDigits ← decimal? whole
      let fractionDigits ← match fraction with
        | [] => some []
        | _ :: digits => groupedDigits? Numeral.isDigit digits
      let power ← match exponent with
        | [] => some 0
        | _ :: rest => do
          let (down, digits) := signed rest
          let digits ← groupedDigits? Numeral.isDigit digits
          let n : Int := Numeral.valueOf digits
          some (if down then -n else n)
      match Double.ofDecimal negative (Numeral.valueOf (wholeDigits ++ fractionDigits))
          (power - fractionDigits.length) with
      | .infinite _ => none
      | x => some x

/-- A number of exactly `count` digits, at least `low` and at most `high`. -/
def fixedNumber? (count low high : Nat) (text : List Char) : Option (Nat × List Char) := do
  let digits := text.take count
  if digits.length = count then
    let n ← Numeral.readDigits? digits
    if low ≤ n ∧ n ≤ high then some (n, text.drop count) else none
  else none

def expect? (c : Char) : List Char → Option (List Char)
  | [] => none
  | d :: rest => if d = c then some rest else none

def isLeapYear (year : Nat) : Bool :=
  year % 4 == 0 && (year % 100 != 0 || year % 400 == 0)

def daysIn (year month : Nat) : Nat :=
  if month = 2 then if isLeapYear year then 29 else 28
  else if month ∈ [4, 6, 9, 11] then 30 else 31

/-- A number with zeros in front up to a width. -/
def padded (width n : Nat) : List Char :=
  let digits := Numeral.writeNat n
  List.replicate (width - digits.length) '0' ++ digits

def date? (text : List Char) : Option ((List Char) × List Char) := do
  let (year, rest) ← fixedNumber? 4 0 9999 text
  let (month, rest) ← fixedNumber? 2 1 12 (← expect? '-' rest)
  let (day, rest) ← fixedNumber? 2 1 (daysIn year month) (← expect? '-' rest)
  some (padded 4 year ++ '-' :: (padded 2 month ++ '-' :: padded 2 day), rest)

/-- The fraction of a second in normal form: nine digits at most, and no zeros at its end. -/
def fraction? : List Char → Option ((List Char) × List Char)
  | '.' :: rest =>
    let (digits, rest) := rest.span Numeral.isDigit
    if digits.isEmpty then none
    else
      let kept := ((digits.take 9).reverse.dropWhile (· = '0')).reverse
      some (if kept.isEmpty then [] else '.' :: kept, rest)
  | rest => some ([], rest)

/-- A time of day such as `07:32:00.5`; the seconds may be missing. -/
def time? (text : List Char) : Option ((List Char) × List Char) := do
  let (hour, rest) ← fixedNumber? 2 0 23 text
  let (minute, rest) ← fixedNumber? 2 0 59 (← expect? ':' rest)
  let front := padded 2 hour ++ ':' :: padded 2 minute
  match rest with
  | ':' :: rest => do
    let (second, rest) ← fixedNumber? 2 0 60 rest
    let (fraction, rest) ← fraction? rest
    some (front ++ ':' :: (padded 2 second ++ fraction), rest)
  | _ => some (front ++ ":00".toList, rest)

def offsetSign (sign : Char) (hours minutes : Nat) : Char :=
  if hours = 0 ∧ minutes = 0 then '+' else sign

/-- The distance from universal time after a date with a time; it may be missing. -/
def offset? : List Char → Option ((List Char) × List Char)
  | 'Z' :: rest => some (['Z'], rest)
  | 'z' :: rest => some (['Z'], rest)
  | c :: rest =>
    if c = '+' ∨ c = '-' then do
      let (hours, rest) ← fixedNumber? 2 0 23 rest
      let (minutes, rest) ← fixedNumber? 2 0 59 (← expect? ':' rest)
      some (offsetSign c hours minutes :: (padded 2 hours ++ ':' :: padded 2 minutes), rest)
    else some ([], c :: rest)
  | [] => some ([], [])

/-- The separator of a date from a time, where a time follows. -/
def timeAfter? : List Char → Option (List Char)
  | 'T' :: rest => some rest
  | 't' :: rest => some rest
  | ' ' :: c :: rest => if Numeral.isDigit c then some (c :: rest) else none
  | _ => none

/-- A date, a time, or both. -/
def moment? (text : List Char) : Option (String × List Char) :=
  match date? text with
  | some (date, rest) =>
    match timeAfter? rest with
    | some rest => do
      let (time, rest) ← time? rest
      let (offset, rest) ← offset? rest
      some (String.ofList (date ++ 'T' :: (time ++ offset)), rest)
    | none => some (String.ofList date, rest)
  | none => (time? text).map fun (time, rest) => (String.ofList time, rest)

def endsScalar (c : Char) : Bool :=
  isSpace c || c = '\n' || c = '\r' || c = ',' || c = ']' || c = '}' || c = '#'

def bare? (text : List Char) : Option (Toml × List Char) :=
  let (token, rest) := text.span fun c => !endsScalar c
  if token = "true".toList then some (.boolean true, rest)
  else if token = "false".toList then some (.boolean false, rest)
  else match integer? token with
    | some n => some (.integer n, rest)
    | none => match float? token with
      | some x => some (.float x, rest)
      | none => do
        let (m, rest) ← moment? text
        if rest.head?.all endsScalar then some (.moment m, rest) else none

end SlimeServer.Toml
