import SlimeServer.Report
/-!
# Call-stack dumps

A dump starts with four lines about the command that asked for it. Each line after them reads
`number: at description`; the first line that does not ends the stack. Frames are numbered by
their place and not by the printed numbers.
-/
namespace SlimeServer.CallStack

/-- The count of lines at the head of a dump that describe the asking command. -/
def padding : Nat := 4

/-- What stands between the number of a frame and its description. -/
def separator : List Char := [':', ' ', 'a', 't', ' ']

def splitSeparator? : List Char → Option (List Char × List Char)
  | [] => none
  | c :: rest =>
    if separator.isPrefixOf (c :: rest) then some ([], (c :: rest).drop separator.length)
    else (splitSeparator? rest).map fun (before, after) => (c :: before, after)

/-- The description on a trimmed line of the form `number: at description`. -/
def description? (line : List Char) : Option (List Char) := do
  let (number, description) ← splitSeparator? line
  let _ ← Numeral.readUnsigned? 64 (Text.trimChars number)
  some description

def leading {α β : Type} (f : α → Option β) : List α → List β
  | [] => []
  | a :: rest => match f a with
    | some b => b :: leading f rest
    | none => []

/-- Frames with the given descriptions, numbered from `index` on. -/
def number (index : Nat) : List (List Char) → List StackFrame
  | [] => []
  | text :: rest => ⟨index, String.ofList text, false⟩ :: number (index + 1) rest

def parse (dump : String) : List StackFrame :=
  let body := ((Text.lines dump.toList).map Text.trimChars).drop padding
  number 0 (leading description? body)

end SlimeServer.CallStack
