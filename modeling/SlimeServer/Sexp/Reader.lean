import SlimeServer.Number.Numeral
import SlimeServer.Sexp.Basic
import SlimeServer.Text.Blank
import SlimeServer.Text.Utf8
/-!
# Reading S-expressions

The reader takes one character at a time. It keeps the token it is inside of, the lists and quotes
that are still open, and the value once it is complete. A fault is reported at the character that
shows it, so text that follows never changes a fault already found.
-/
namespace SlimeServer

/-- Why a text is not exactly one value. Offsets count bytes. -/
inductive ReadError where
  | unexpectedEof
  | unexpectedClose (offset : Nat)
  | unterminatedString (start : Nat)
  | trailingInput (offset : Nat)
  | invalidUtf8
  deriving DecidableEq, Repr

def ReadError.message : ReadError → String
  | unexpectedEof => "Unexpected end of input"
  | unexpectedClose offset => s!"Unexpected ')' at offset {offset}"
  | unterminatedString start => s!"Unterminated string starting at offset {start}"
  | trailingInput offset => s!"Trailing input at offset {offset}"
  | invalidUtf8 => "Payload is not valid UTF-8"

namespace Sexp

def isDelimiter (c : Char) : Bool :=
  c == '(' || c == ')' || c == '"' || c == '\'' || c == ';'

def endsAtom (c : Char) : Bool := Text.isBlank c || isDelimiter c

/-- A digit after an optional sign and an optional point, and no character that a number cannot
hold. It keeps symbols such as `+`, `1+` or `inf` from being read as numbers. -/
def looksNumeric (token : List Char) : Bool :=
  let unsigned := match token with
    | '+' :: rest | '-' :: rest => rest
    | _ => token
  let body := match unsigned with
    | '.' :: rest => rest
    | _ => unsigned
  body.head?.any Numeral.isDigit &&
    token.all fun c =>
      Numeral.isDigit c || c == '+' || c == '-' || c == '.' || c == 'e' || c == 'E'

def dropPoint (token : List Char) : List Char :=
  if token.getLast? = some '.' then token.dropLast else token

/-- The value of a token that is neither a string nor punctuation. An integer may end in a
point. -/
def ofAtom (token : List Char) : Sexp :=
  if token.map Char.toLower = ['n', 'i', 'l'] then nil
  else if token.map Char.toLower = ['t'] then truth
  else if looksNumeric token then
    match Numeral.readInt64? (dropPoint token) with
    | some n => integer n
    | none => match Double.ofChars? token with
      | some x => float x
      | none => symbol (String.ofList token)
  else symbol (String.ofList token)

def ofItems (items : List Sexp) : Sexp :=
  if items.isEmpty then nil else list items

/-- The token a reader is inside of. Characters are held newest first. -/
inductive Token where
  | none
  | comment
  | atom (chars : List Char)
  | text (start : Nat) (chars : List Char)
  | escaped (start : Nat) (chars : List Char)
  deriving DecidableEq, Repr

/-- What is still open around the next value. Items are held newest first. -/
inductive Opened where
  | list (items : List Sexp)
  | quote
  deriving DecidableEq, Repr

structure Reader where
  offset : Nat
  token : Token
  opened : List Opened
  value : Option Sexp
  deriving DecidableEq, Repr

namespace Reader

def start : Reader := ⟨0, .none, [], none⟩

/-- Puts a complete value where it belongs: into the innermost open list, through any quotes, or
at the top. -/
def deliver (value : Sexp) : List Opened → List Opened × Option Sexp
  | [] => ([], some value)
  | .quote :: outer => deliver (Sexp.list [Sexp.symbol "quote", value]) outer
  | .list items :: outer => (.list (value :: items) :: outer, none)

def accept (r : Reader) (value : Sexp) : Reader :=
  let (opened, whole) := deliver value r.opened
  { r with token := .none, opened := opened, value := whole }

def between (r : Reader) (c : Char) : Except ReadError Reader :=
  if Text.isBlank c then .ok { r with token := .none }
  else if c = ';' then .ok { r with token := .comment }
  else if r.value.isSome then .error (.trailingInput r.offset)
  else if c = '(' then .ok { r with token := .none, opened := .list [] :: r.opened }
  else if c = ')' then
    match r.opened with
    | .list items :: outer =>
      .ok ({ r with opened := outer }.accept (ofItems items.reverse))
    | _ => .error (.unexpectedClose r.offset)
  else if c = '"' then .ok { r with token := .text r.offset [] }
  else if c = '\'' then .ok { r with token := .none, opened := .quote :: r.opened }
  else .ok { r with token := .atom [c] }

def step (r : Reader) (c : Char) : Except ReadError Reader :=
  match r.token with
  | .none => r.between c
  | .comment => .ok (if c = '\n' then { r with token := .none } else r)
  | .atom chars =>
    if endsAtom c then (r.accept (ofAtom chars.reverse)).between c
    else .ok { r with token := .atom (c :: chars) }
  | .text start chars =>
    if c = '"' then .ok (r.accept (Sexp.string (String.ofList chars.reverse)))
    else if c = '\\' then .ok { r with token := .escaped start chars }
    else .ok { r with token := .text start (c :: chars) }
  | .escaped start chars => .ok { r with token := .text start (c :: chars) }

def feed (r : Reader) (c : Char) : Except ReadError Reader :=
  (r.step c).map fun next => { next with offset := r.offset + c.utf8Size }

def run (r : Reader) (text : List Char) : Except ReadError Reader :=
  text.foldlM feed r

def finish (r : Reader) : Except ReadError Sexp :=
  match r.token with
  | .text start _ | .escaped start _ => .error (.unterminatedString start)
  | .atom chars => whole (r.accept (ofAtom chars.reverse))
  | _ => whole r
where
  whole (r : Reader) : Except ReadError Sexp :=
    match r.value with
    | some value => .ok value
    | none => .error .unexpectedEof

end Reader

def readChars (text : List Char) : Except ReadError Sexp := do
  (← Reader.start.run text).finish

def read (text : String) : Except ReadError Sexp := readChars text.toList

def readBytes (payload : List UInt8) : Except ReadError Sexp :=
  match Utf8.decode? payload with
  | some text => read text
  | none => .error .invalidUtf8

end Sexp
end SlimeServer
