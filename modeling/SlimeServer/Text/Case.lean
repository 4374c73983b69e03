/-!
# Letter case within ASCII

Comparison and folding that treat only the letters `A` to `Z` as having a lower case.
-/
namespace SlimeServer.Text

def lowerAscii (text : String) : String :=
  String.ofList (text.toList.map Char.toLower)

def sameIgnoringCase (a b : String) : Bool :=
  a.toList.map Char.toLower == b.toList.map Char.toLower

end SlimeServer.Text
