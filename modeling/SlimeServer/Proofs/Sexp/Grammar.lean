import SlimeServer.Proofs.Number.Numeral
import SlimeServer.Sexp.Reader
/-!
# The grammar of S-expressions

A text spells a value when it can be cut into lexemes, each of them as long as possible, and the
lexemes are together one datum that denotes the value. The reader takes one character at a time
and never goes back; it brings exactly the values that texts spell.
-/
namespace SlimeServer.Sexp

/-- The pieces a text is cut into. A string literal stands for its text, an atom for itself. -/
inductive Lexeme where
  | opening
  | closing
  | quote
  | text (chars : List Char)
  | atom (chars : List Char)
  deriving DecidableEq, Repr

/-- What stands between the quotes of a string literal, and the text it is for. A backslash takes
the next character as it is. -/
inductive Literal : List Char → List Char → Prop
  | nil : Literal [] []
  | plain {c : Char} {body chars : List Char} : c ≠ '"' → c ≠ '\\' → Literal body chars →
      Literal (c :: body) (c :: chars)
  | escaped {c : Char} {body chars : List Char} : Literal body chars →
      Literal ('\\' :: c :: body) (c :: chars)

/-- A text cut into lexemes by longest match. Between them stand white space and comments, which
reach to the end of their line. -/
inductive Lexes : List Char → List Lexeme → Prop
  | nil : Lexes [] []
  | blank {c : Char} {rest : List Char} {lexemes : List Lexeme} : Text.isBlank c = true →
      Lexes rest lexemes → Lexes (c :: rest) lexemes
  | comment {body rest : List Char} {lexemes : List Lexeme} : (∀ c ∈ body, c ≠ '\n') →
      (∀ c ∈ rest.head?, c = '\n') → Lexes rest lexemes → Lexes (';' :: (body ++ rest)) lexemes
  | opening {rest : List Char} {lexemes : List Lexeme} : Lexes rest lexemes →
      Lexes ('(' :: rest) (.opening :: lexemes)
  | closing {rest : List Char} {lexemes : List Lexeme} : Lexes rest lexemes →
      Lexes (')' :: rest) (.closing :: lexemes)
  | quote {rest : List Char} {lexemes : List Lexeme} : Lexes rest lexemes →
      Lexes ('\'' :: rest) (.quote :: lexemes)
  | text {body chars rest : List Char} {lexemes : List Lexeme} : Literal body chars →
      Lexes rest lexemes → Lexes ('"' :: (body ++ '"' :: rest)) (.text chars :: lexemes)
  | atom {c : Char} {body rest : List Char} {lexemes : List Lexeme} :
      (∀ d ∈ c :: body, endsAtom d = false) → (∀ d ∈ rest.head?, endsAtom d = true) →
      Lexes rest lexemes → Lexes (c :: (body ++ rest)) (.atom (c :: body) :: lexemes)

def IntegerAtom (chars : List Char) (n : Int64) : Prop :=
  ∃ numeral point, chars = numeral ++ point ∧ Numeral.Signed numeral n ∧
    (point = [] ∨ point = ['.'])

def FloatAtom (chars : List Char) (x : Double) : Prop :=
  looksNumeric chars = true ∧ Double.ofChars? chars = some x

def NamedAtom (chars : List Char) (value : Sexp) : Prop :=
  chars.map Char.toLower = ['n', 'i', 'l'] ∧ value = .nil ∨
    chars.map Char.toLower = ['t'] ∧ value = .truth

/-- The value of an atom. Each kind counts only where none of the kinds before it does. -/
inductive Denotes (chars : List Char) : Sexp → Prop
  | named {value : Sexp} : NamedAtom chars value → Denotes chars value
  | integer {n : Int64} : IntegerAtom chars n → Denotes chars (.integer n)
  | float {x : Double} : (∀ value, ¬ NamedAtom chars value) → (∀ n, ¬ IntegerAtom chars n) →
      FloatAtom chars x → Denotes chars (.float x)
  | symbol : (∀ value, ¬ NamedAtom chars value) → (∀ n, ¬ IntegerAtom chars n) →
      (∀ x, ¬ FloatAtom chars x) → Denotes chars (.symbol (String.ofList chars))

mutual
/-- The lexemes of one value. -/
inductive Datum : List Lexeme → Sexp → Prop
  | atom {chars : List Char} {value : Sexp} : Denotes chars value → Datum [.atom chars] value
  | text (chars : List Char) : Datum [.text chars] (.string (String.ofList chars))
  | quote {lexemes : List Lexeme} {value : Sexp} : Datum lexemes value →
      Datum (.quote :: lexemes) (.list [.symbol "quote", value])
  | empty : Datum [.opening, .closing] .nil
  | list {lexemes : List Lexeme} {item : Sexp} {rest : List Sexp} : Data lexemes (item :: rest) →
      Datum (.opening :: (lexemes ++ [.closing])) (.list (item :: rest))
inductive Data : List Lexeme → List Sexp → Prop
  | nil : Data [] []
  | cons {first more : List Lexeme} {item : Sexp} {rest : List Sexp} : Datum first item →
      Data more rest → Data (first ++ more) (item :: rest)
end

def Spells (text : String) (value : Sexp) : Prop :=
  ∃ lexemes, Lexes text.toList lexemes ∧ Datum lexemes value

section Atoms

variable {chars : List Char}

theorem toLower_of_isDigit {c : Char} (h : Numeral.isDigit c = true) : c.toLower = c := by
  obtain ⟨-, hhigh⟩ := Numeral.isDigit_iff.1 h
  refine dif_neg ?_
  rintro ⟨hlow, -⟩
  have hlow : 65 ≤ c.toNat := hlow
  omega

theorem toLower_of_looksNumeric (h : looksNumeric chars = true) :
    ∀ c ∈ chars, c.toLower ≠ 'l' ∧ c.toLower ≠ 't' := by
  intro c hc
  simp only [looksNumeric, Bool.and_eq_true, List.all_eq_true, Bool.or_eq_true, beq_iff_eq] at h
  rcases h.2 c hc with ((((hdigit | rfl) | rfl) | rfl) | rfl) | rfl
  · rw [toLower_of_isDigit hdigit]
    constructor
    · rintro rfl
      cases hdigit
    · rintro rfl
      cases hdigit
  all_goals decide

theorem not_namedAtom_of_looksNumeric (h : looksNumeric chars = true) {value : Sexp} :
    ¬ NamedAtom chars value := by
  have hlower := toLower_of_looksNumeric h
  rintro (⟨hname, -⟩ | ⟨hname, -⟩)
  · obtain ⟨c, hc, hl⟩ := List.mem_map.1 (hname ▸ (by simp : 'l' ∈ ['n', 'i', 'l']))
    exact (hlower c hc).1 hl
  · obtain ⟨c, hc, ht⟩ := List.mem_map.1 (hname ▸ (by simp : 't' ∈ ['t']))
    exact (hlower c hc).2 ht

theorem looksNumeric_integerAtom {n : Int64} (h : IntegerAtom chars n) :
    looksNumeric chars = true := by
  obtain ⟨numeral, point, rfl, ⟨sign, factor, digits, hsign, rfl, hne, hall, -⟩, hpoint⟩ := h
  cases digits with
  | nil => exact absurd rfl hne
  | cons c rest =>
    obtain ⟨hc, hrest⟩ := List.forall_mem_cons.1 hall
    obtain ⟨hplus, hminus⟩ := Numeral.ne_sign_of_isDigit hc
    have hdot : c ≠ '.' := by
      rintro rfl
      cases hc
    cases hsign <;> rcases hpoint with rfl | rfl <;>
      simp +contextual [looksNumeric, hplus, hminus, hdot, hc, hrest]

theorem dropPoint_append {numeral point : List Char} {n : Int64} (h : Numeral.Signed numeral n)
    (hpoint : point = [] ∨ point = ['.']) : dropPoint (numeral ++ point) = numeral := by
  rcases hpoint with rfl | rfl
  · obtain ⟨sign, factor, digits, -, rfl, hne, hall, -⟩ := h
    rw [List.append_nil, dropPoint, if_neg]
    intro hlast
    rw [List.getLast?_append, List.getLast?_eq_some_getLast hne] at hlast
    have hdigit := hall _ (List.getLast_mem hne)
    rw [Option.some.inj hlast] at hdigit
    cases hdigit
  · rw [dropPoint, if_pos (by simp), List.dropLast_concat]

theorem exists_append_dropPoint (chars : List Char) :
    ∃ point, chars = dropPoint chars ++ point ∧ (point = [] ∨ point = ['.']) := by
  rw [dropPoint]
  split
  · rename_i hlast
    obtain ⟨numeral, rfl⟩ := List.getLast?_eq_some_iff.1 hlast
    exact ⟨['.'], by rw [List.dropLast_concat], .inr rfl⟩
  · exact ⟨[], (List.append_nil chars).symm, .inl rfl⟩

theorem integerAtom_iff {n : Int64} :
    IntegerAtom chars n ↔ Numeral.readInt64? (dropPoint chars) = some n := by
  rw [Numeral.readInt64?_eq_some_iff]
  constructor
  · rintro ⟨numeral, point, rfl, hnumeral, hpoint⟩
    rwa [dropPoint_append hnumeral hpoint]
  · intro h
    obtain ⟨point, hchars, hpoint⟩ := exists_append_dropPoint chars
    exact ⟨dropPoint chars, point, hchars, h, hpoint⟩

theorem ofAtom_of_namedAtom {value : Sexp} (h : NamedAtom chars value) : ofAtom chars = value := by
  rcases h with ⟨hname, rfl⟩ | ⟨hname, rfl⟩
  · rw [ofAtom, if_pos hname]
  · rw [ofAtom, hname, if_neg (by decide), if_pos rfl]

theorem ofAtom_of_not_namedAtom (h : ∀ value, ¬ NamedAtom chars value) :
    ofAtom chars = if looksNumeric chars then
        match Numeral.readInt64? (dropPoint chars) with
        | some n => integer n
        | none => match Double.ofChars? chars with
          | some x => float x
          | none => symbol (String.ofList chars)
      else symbol (String.ofList chars) := by
  have hnil : chars.map Char.toLower ≠ ['n', 'i', 'l'] := fun hname => h _ (.inl ⟨hname, rfl⟩)
  have htruth : chars.map Char.toLower ≠ ['t'] := fun hname => h _ (.inr ⟨hname, rfl⟩)
  rw [ofAtom, if_neg hnil]
  exact if_neg htruth

theorem ofAtom_of_denotes {value : Sexp} (h : Denotes chars value) : ofAtom chars = value := by
  cases h with
  | named hname => exact ofAtom_of_namedAtom hname
  | integer hinteger =>
    have hnumeric := looksNumeric_integerAtom hinteger
    rw [ofAtom_of_not_namedAtom fun _ => not_namedAtom_of_looksNumeric hnumeric, if_pos hnumeric,
      integerAtom_iff.1 hinteger]
  | float hname hinteger hfloat =>
    obtain ⟨hnumeric, hx⟩ := hfloat
    have hnone : Numeral.readInt64? (dropPoint chars) = none :=
      Option.eq_none_iff_forall_ne_some.2 fun n hn => hinteger n (integerAtom_iff.2 hn)
    rw [ofAtom_of_not_namedAtom hname, if_pos hnumeric, hnone, hx]
  | symbol hname hinteger hfloat =>
    rw [ofAtom_of_not_namedAtom hname]
    split
    · rename_i hnumeric
      have hnone : Numeral.readInt64? (dropPoint chars) = none :=
        Option.eq_none_iff_forall_ne_some.2 fun n hn => hinteger n (integerAtom_iff.2 hn)
      have hx : Double.ofChars? chars = none :=
        Option.eq_none_iff_forall_ne_some.2 fun x hx => hfloat x ⟨hnumeric, hx⟩
      rw [hnone, hx]
    · rfl

/-- Every atom denotes a value. -/
theorem denotes_ofAtom (chars : List Char) : Denotes chars (ofAtom chars) := by
  by_cases hname : ∃ value, NamedAtom chars value
  · obtain ⟨value, hvalue⟩ := hname
    rw [ofAtom_of_namedAtom hvalue]
    exact .named hvalue
  · have hname := not_exists.1 hname
    by_cases hinteger : ∃ n, IntegerAtom chars n
    · obtain ⟨n, hn⟩ := hinteger
      rw [ofAtom_of_denotes (.integer hn)]
      exact .integer hn
    · have hinteger := not_exists.1 hinteger
      by_cases hfloat : ∃ x, FloatAtom chars x
      · obtain ⟨x, hx⟩ := hfloat
        rw [ofAtom_of_denotes (.float hname hinteger hx)]
        exact .float hname hinteger hx
      · have hsymbol := Denotes.symbol hname hinteger (not_exists.1 hfloat)
        rw [ofAtom_of_denotes hsymbol]
        exact hsymbol

theorem denotes_iff {value : Sexp} : Denotes chars value ↔ ofAtom chars = value := by
  constructor
  · exact ofAtom_of_denotes
  · rintro rfl
    exact denotes_ofAtom chars

end Atoms

end SlimeServer.Sexp
