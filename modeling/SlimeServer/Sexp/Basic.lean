import SlimeServer.Number.Double
import SlimeServer.Text.Case
/-!
# S-expressions

The values exchanged with the editor and with the evaluator. Symbols are kept apart from strings;
keywords are symbols whose name starts with a colon. The symbols `nil` and `t` are values of their
own, and an empty list is told apart from `nil` although both print alike.
-/
namespace SlimeServer

inductive Sexp where
  | nil
  | truth
  | integer (n : Int64)
  | float (x : Double)
  | string (text : String)
  | symbol (name : String)
  | list (items : List Sexp)
  deriving Repr, Inhabited

namespace Sexp

mutual
def decEq : (a b : Sexp) → Decidable (a = b)
  | .nil, .nil => isTrue rfl
  | .truth, .truth => isTrue rfl
  | .integer m, .integer n =>
    if h : m = n then isTrue (h ▸ rfl) else isFalse fun e => h (Sexp.integer.inj e)
  | .float x, .float y =>
    if h : x = y then isTrue (h ▸ rfl) else isFalse fun e => h (Sexp.float.inj e)
  | .string s, .string t =>
    if h : s = t then isTrue (h ▸ rfl) else isFalse fun e => h (Sexp.string.inj e)
  | .symbol s, .symbol t =>
    if h : s = t then isTrue (h ▸ rfl) else isFalse fun e => h (Sexp.symbol.inj e)
  | .list xs, .list ys =>
    match decEqList xs ys with
    | isTrue h => isTrue (h ▸ rfl)
    | isFalse h => isFalse fun e => h (Sexp.list.inj e)
  | .nil, .truth | .nil, .integer _ | .nil, .float _ | .nil, .string _ | .nil, .symbol _
  | .nil, .list _ | .truth, .nil | .truth, .integer _ | .truth, .float _ | .truth, .string _
  | .truth, .symbol _ | .truth, .list _ | .integer _, .nil | .integer _, .truth
  | .integer _, .float _ | .integer _, .string _ | .integer _, .symbol _ | .integer _, .list _
  | .float _, .nil | .float _, .truth | .float _, .integer _ | .float _, .string _
  | .float _, .symbol _ | .float _, .list _ | .string _, .nil | .string _, .truth
  | .string _, .integer _ | .string _, .float _ | .string _, .symbol _ | .string _, .list _
  | .symbol _, .nil | .symbol _, .truth | .symbol _, .integer _ | .symbol _, .float _
  | .symbol _, .string _ | .symbol _, .list _ | .list _, .nil | .list _, .truth
  | .list _, .integer _ | .list _, .float _ | .list _, .string _ | .list _, .symbol _ =>
    isFalse nofun
def decEqList : (xs ys : List Sexp) → Decidable (xs = ys)
  | [], [] => isTrue rfl
  | [], _ :: _ | _ :: _, [] => isFalse nofun
  | x :: xs, y :: ys =>
    match decEq x y, decEqList xs ys with
    | isTrue hx, isTrue hxs => isTrue (hx ▸ hxs ▸ rfl)
    | isFalse hx, _ => isFalse fun e => hx (List.cons.inj e).1
    | _, isFalse hxs => isFalse fun e => hxs (List.cons.inj e).2
end

instance : DecidableEq Sexp := decEq

/-- The symbol with a colon in front; a name that has one already is kept. -/
def keyword (name : String) : Sexp :=
  match name.toList with
  | ':' :: _ => symbol name
  | _ => symbol (":" ++ name)

def ofBool (flag : Bool) : Sexp := if flag then truth else nil

def plist (entries : List (String × Sexp)) : Sexp :=
  list (entries.flatMap fun (key, value) => [keyword key, value])

/-- Both `nil` and the empty list are nil. -/
def isNil : Sexp → Bool
  | nil => true
  | list items => items.isEmpty
  | _ => false

def symbol? : Sexp → Option String
  | symbol name => some name
  | _ => none

def string? : Sexp → Option String
  | string text => some text
  | _ => none

def integer? : Sexp → Option Int64
  | integer n => some n
  | _ => none

def designator? : Sexp → Option String
  | string text => some text
  | symbol name => some name
  | _ => none

def items? : Sexp → Option (List Sexp)
  | list items => some items
  | nil => some []
  | _ => none

def unquote : Sexp → Sexp
  | list [symbol head, inner] =>
    if Text.sameIgnoringCase head "quote" then inner else list [symbol head, inner]
  | value => value

mutual
/-- Numeric equality of floats carried through a value: not a number differs from itself. -/
def same : Sexp → Sexp → Bool
  | float x, float y => x.same y
  | list xs, list ys => sameItems xs ys
  | x, y => x == y
def sameItems : List Sexp → List Sexp → Bool
  | [], [] => true
  | x :: xs, y :: ys => same x y && sameItems xs ys
  | _, _ => false
end

end Sexp
end SlimeServer
