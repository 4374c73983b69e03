import SlimeServer.Text.Letters
/-!
# Lower case

The lower case of a text, character by character but for two letters: the capital sigma, which
has a form of its own at the end of a word, and the capital I with a dot, which becomes two
characters.
-/
namespace SlimeServer.Text

def lowerChar (c : Char) : Char :=
  if c.toNat < 0x80 then c.toLower
  else
    let n := c.toNat
    match caseRows.find? fun row =>
        row.first ≤ n && n ≤ row.last && (n - row.first) % row.step == 0 with
    | some row => Char.ofNat ((n : Int) + row.shift).toNat
    | none => c

def meetsCased (nearest : List Char) : Bool :=
  (nearest.dropWhile isCaseIgnorable).head?.any isCased

/-- The lower case of the characters after `before`, which holds those already passed, newest
first. -/
def lowerFrom (before : List Char) : List Char → List Char
  | [] => []
  | c :: rest =>
    let lower :=
      if c = '\u03a3' then
        [if meetsCased before && !meetsCased rest then '\u03c2' else '\u03c3']
      else if c = '\u0130' then ['i', '\u0307']
      else [lowerChar c]
    lower ++ lowerFrom (c :: before) rest

def lowercase (text : String) : String :=
  String.ofList (lowerFrom [] text.toList)

end SlimeServer.Text
