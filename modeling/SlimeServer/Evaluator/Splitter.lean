import SlimeServer.Text.Utf8
/-!
# Splitting output at the session token

The evaluator prints a token after the output of every evaluation. Output arrives in pieces that
may end anywhere, also inside the token or inside a character, so the end of a piece is held back
until the next one decides what it is.
-/
namespace SlimeServer

/-- What a piece of output decided: text before the token, and whether the token was found. -/
structure Split where
  text : String
  found : Bool
  deriving DecidableEq, Repr

/-- Splits the output of one operation; `held` are the bytes not decided yet. -/
structure Splitter where
  token : List UInt8
  held : List UInt8
  deriving DecidableEq, Repr

namespace Splitter

def start (token : List UInt8) : Splitter := ⟨token, []⟩

/-- Where the last occurrence of a token starts; the empty token occurs nowhere. -/
def lastIndex? (token : List UInt8) : List UInt8 → Option Nat
  | [] => none
  | b :: rest =>
    match lastIndex? token rest with
    | some i => some (i + 1)
    | none => if !token.isEmpty && token.isPrefixOf (b :: rest) then some 0 else none

/-- The length of the longest beginning of the token, short of all of it, that ends the bytes. -/
def partialLength (token bytes : List UInt8) : Nat :=
  ((List.range token.length).reverse.find? fun n => (token.take n).isSuffixOf bytes).getD 0

/-- How many of the bytes can be decided when the token is not among them: all but a beginning of
the token and a character that is not complete. -/
def decided (token bytes : List UInt8) : Nat :=
  let sure := bytes.length - partialLength token bytes
  sure - Utf8.unfinishedTail (bytes.take sure)

/-- One more piece of output. The last token in it ends the operation, and what follows it is
dropped. -/
def push (s : Splitter) (piece : List UInt8) : Split × Splitter :=
  let bytes := s.held ++ piece
  match lastIndex? s.token bytes with
  | some i => (⟨Utf8.decodeLossy (bytes.take i), true⟩, { s with held := [] })
  | none =>
    let n := decided s.token bytes
    (⟨Utf8.decodeLossy (bytes.take n), false⟩, { s with held := bytes.drop n })

@[simp] theorem push_token (s : Splitter) (piece : List UInt8) :
    (s.push piece).2.token = s.token := by
  simp only [push]
  split <;> rfl

end Splitter
end SlimeServer
