/-!
# Colour escapes

A colour escape runs from an escape character to the next `m`, whatever stands between.
-/
namespace SlimeServer.Text

def escapeChar : Char := '\x1b'

/-- The text after the next `m`, where there is one. -/
def afterEscape? : List Char → Option (List Char)
  | [] => none
  | c :: rest => if c = 'm' then some rest else afterEscape? rest

theorem afterEscape?_length {text rest : List Char} (h : afterEscape? text = some rest) :
    rest.length < text.length := by
  induction text with
  | nil => simp [afterEscape?] at h
  | cons c more ih =>
    simp only [afterEscape?] at h
    split at h
    · simp_all
    · have := ih h
      simp only [List.length_cons]
      omega

/-- The text without its colour escapes. An escape character with no `m` after it stays. -/
def stripColorChars : List Char → List Char
  | [] => []
  | c :: rest =>
    if c = escapeChar then
      match _h : afterEscape? rest with
      | some after => stripColorChars after
      | none => c :: stripColorChars rest
    else c :: stripColorChars rest
termination_by text => text.length
decreasing_by
  · have := afterEscape?_length (by assumption)
    simp only [List.length_cons]
    omega
  all_goals simp

def stripColor (text : String) : String :=
  String.ofList (stripColorChars text.toList)

/-- What the pattern `\x1b[^m]*m` matches: an escape character, anything but an `m`, and an `m`. -/
def IsEscape (piece : List Char) : Prop :=
  ∃ inside, piece = escapeChar :: (inside ++ ['m']) ∧ 'm' ∉ inside

/-- The matches of a pattern are taken out of a text from left to right: the first one is the one
that begins first, and the next is looked for behind it. -/
inductive Removes (pattern : List Char → Prop) : List Char → List Char → Prop where
  | done {text : List Char}
      (hnone : ∀ before piece after, text = before ++ (piece ++ after) → ¬ pattern piece) :
      Removes pattern text text
  | first {before piece after rest : List Char} (hpiece : pattern piece)
      (hfirst : ∀ front other back, before ++ (piece ++ after) = front ++ (other ++ back) →
        pattern other → before.length ≤ front.length)
      (hrest : Removes pattern after rest) :
      Removes pattern (before ++ (piece ++ after)) (before ++ rest)

@[simp] theorem stripColorChars_nil : stripColorChars [] = [] := by
  simp [stripColorChars]

theorem stripColorChars_of_not_mem {text : List Char} (h : escapeChar ∉ text) :
    stripColorChars text = text := by
  induction text with
  | nil => simp
  | cons c rest ih =>
    simp only [List.mem_cons, not_or] at h
    rw [stripColorChars, if_neg (Ne.symm h.1), ih h.2]

theorem stripColor_of_not_mem {text : String} (h : escapeChar ∉ text.toList) :
    stripColor text = text := by
  rw [stripColor, stripColorChars_of_not_mem h, String.ofList_toList]

end SlimeServer.Text
