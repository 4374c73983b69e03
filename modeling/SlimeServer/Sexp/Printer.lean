import SlimeServer.Number.Shortest
import SlimeServer.Sexp.Basic
/-!
# Printing S-expressions

Items are separated by one space, and within a string a backslash stands before every quote and
backslash. Symbols are printed as they are.
-/
namespace SlimeServer.Sexp

def escape : List Char → List Char
  | [] => []
  | c :: rest => if c = '"' ∨ c = '\\' then '\\' :: c :: escape rest else c :: escape rest

mutual
def printChars : Sexp → List Char
  | nil => ['n', 'i', 'l']
  | truth => ['t']
  | integer n => Numeral.writeInt n.toInt
  | float x => x.write
  | string text => '"' :: (escape text.toList ++ ['"'])
  | symbol name => name.toList
  | list [] => ['n', 'i', 'l']
  | list (item :: rest) => '(' :: (printChars item ++ printRest rest ++ [')'])
def printRest : List Sexp → List Char
  | [] => []
  | item :: rest => ' ' :: (printChars item ++ printRest rest)
end

def print (value : Sexp) : String := String.ofList (printChars value)

/-- The text shown to a user: a string without quotes, any other value printed. -/
def displayText : Sexp → String
  | string text => text
  | value => print value

end SlimeServer.Sexp
