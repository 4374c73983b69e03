/-!
# White space

The characters of the Unicode property `White_Space`, and what is cut at them: the ends of a text
and the ends of its lines.
-/
namespace SlimeServer.Text

/-- The twenty-five characters of the property `White_Space`. -/
def isBlank (c : Char) : Bool :=
  let n := c.toNat
  (9 ≤ n && n ≤ 13) || n == 0x20 || n == 0x85 || n == 0xA0 || n == 0x1680 ||
    (0x2000 ≤ n && n ≤ 0x200A) || n == 0x2028 || n == 0x2029 || n == 0x202F || n == 0x205F ||
    n == 0x3000

def trimChars (text : List Char) : List Char :=
  ((text.dropWhile isBlank).reverse.dropWhile isBlank).reverse

def trim (text : String) : String :=
  String.ofList (trimChars text.toList)

/-- The lines of a text. A newline ends a line, so a text that ends in one has no empty line
after it. -/
def lines : List Char → List (List Char)
  | [] => []
  | c :: rest =>
    if c = '\n' then [] :: lines rest
    else match lines rest with
      | [] => [[c]]
      | line :: more => (c :: line) :: more

@[simp] theorem lines_newline (rest : List Char) : lines ('\n' :: rest) = [] :: lines rest := by
  simp [lines]

theorem trimChars_of_ends {first last : Char} (body : List Char) (hf : isBlank first = false)
    (hl : isBlank last = false) :
    trimChars (first :: (body ++ [last])) = first :: (body ++ [last]) := by
  rw [trimChars, List.dropWhile_cons_of_neg (by simp [hf]), ← List.cons_append, List.reverse_append,
    List.reverse_singleton, List.singleton_append, List.dropWhile_cons_of_neg (by simp [hl]),
    List.reverse_cons, List.reverse_reverse]

end SlimeServer.Text
