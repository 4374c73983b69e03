import SlimeServer.Number.Numeral
/-!
# Numerals read and written

An integer is read from exactly its numerals, so a numeral that was written is read back as the
number it was written for.
-/
namespace SlimeServer.Numeral

theorem isDigit_iff {c : Char} : isDigit c = true ↔ 48 ≤ c.toNat ∧ c.toNat ≤ 57 := by
  simp only [isDigit, Bool.and_eq_true, decide_eq_true_eq]
  exact Iff.rfl

theorem isDigit_of_mem_writeNat {n : Nat} {c : Char} (h : c ∈ writeNat n) : isDigit c = true := by
  have hc := Nat.isDigit_of_mem_toDigits (by decide) (by decide) h
  simp only [Char.isDigit, Bool.and_eq_true, decide_eq_true_eq] at hc
  exact isDigit_iff.2 hc

theorem writeNat_ne_nil (n : Nat) : writeNat n ≠ [] := Nat.toDigits_ne_nil

inductive Sign : List Char → Int → Prop
  | none : Sign [] 1
  | plus : Sign ['+'] 1
  | minus : Sign ['-'] (-1)

def Signed (text : List Char) (n : Int64) : Prop :=
  ∃ sign factor digits, Sign sign factor ∧ text = sign ++ digits ∧ digits ≠ [] ∧
    (∀ c ∈ digits, isDigit c = true) ∧ n.toInt = factor * Nat.ofDigitChars 10 digits 0

theorem readDigits?_eq_some_iff {text : List Char} {n : Nat} :
    readDigits? text = some n ↔
      text ≠ [] ∧ (∀ c ∈ text, isDigit c = true) ∧ Nat.ofDigitChars 10 text 0 = n := by
  have hvalue : valueOf text = Nat.ofDigitChars 10 text 0 := by
    simp only [valueOf, Nat.ofDigitChars, Nat.mul_comm 10]
    rfl
  rw [readDigits?, hvalue, ← List.all_eq_true]
  constructor
  · intro h
    split at h
    · rename_i hdigits
      exact ⟨hdigits.1, hdigits.2, Option.some.inj h⟩
    · cases h
  · rintro ⟨hne, hall, rfl⟩
    rw [if_pos ⟨hne, hall⟩]

theorem ne_sign_of_isDigit {c : Char} (h : isDigit c = true) : c ≠ '+' ∧ c ≠ '-' := by
  constructor
  · rintro rfl
    simp [isDigit] at h
  · rintro rfl
    simp [isDigit] at h

theorem ofInt_eq_iff {n : Int64} {z : Int} (hlow : -9223372036854775808 ≤ z)
    (hhigh : z ≤ 9223372036854775807) : Int64.ofInt z = n ↔ n.toInt = z := by
  constructor
  · rintro rfl
    exact Int64.toInt_ofInt_of_le (by omega) (by omega)
  · rintro rfl
    exact Int64.ofInt_toInt n

/-- Digits with a factor, read where the product is in range. -/
theorem bind_readDigits? {digits : List Char} {n : Int64} {factor : Int} {fits : Nat → Prop}
    [DecidablePred fits]
    (hfits : ∀ m : Nat, fits m ↔
      -9223372036854775808 ≤ factor * m ∧ factor * m ≤ 9223372036854775807) :
    ((readDigits? digits).bind fun m =>
        if fits m then some (Int64.ofInt (factor * m)) else none) = some n ↔
      digits ≠ [] ∧ (∀ c ∈ digits, isDigit c = true) ∧
        n.toInt = factor * Nat.ofDigitChars 10 digits 0 := by
  simp only [Option.bind_eq_some_iff, readDigits?_eq_some_iff]
  constructor
  · rintro ⟨m, ⟨hne, hall, rfl⟩, hn⟩
    split at hn
    · rename_i hfit
      obtain ⟨hlow, hhigh⟩ := (hfits _).1 hfit
      exact ⟨hne, hall, (ofInt_eq_iff hlow hhigh).1 (Option.some.inj hn)⟩
    · cases hn
  · rintro ⟨hne, hall, hn⟩
    have hlow : -9223372036854775808 ≤ n.toInt := n.le_toInt
    have hhigh : n.toInt ≤ 9223372036854775807 := Int.le_of_lt_add_one n.toInt_lt
    rw [hn] at hlow hhigh
    refine ⟨_, ⟨hne, hall, rfl⟩, ?_⟩
    rw [if_pos ((hfits _).2 ⟨hlow, hhigh⟩), (ofInt_eq_iff hlow hhigh).2 hn]

theorem readInt64?_minus_eq_some_iff {digits : List Char} {n : Int64} :
    readInt64? ('-' :: digits) = some n ↔ digits ≠ [] ∧ (∀ c ∈ digits, isDigit c = true) ∧
      n.toInt = -1 * Nat.ofDigitChars 10 digits 0 := by
  have hfits : ∀ m : Nat, m ≤ Nat.pow 2 63 ↔
      -9223372036854775808 ≤ (-1 : Int) * m ∧ (-1 : Int) * m ≤ 9223372036854775807 := by
    intro m
    change m ≤ 9223372036854775808 ↔ _
    omega
  rw [← bind_readDigits? hfits]
  simp only [Int.neg_mul, Int.one_mul]
  rfl

theorem readInt64?_plus_eq_some_iff {digits : List Char} {n : Int64} :
    readInt64? ('+' :: digits) = some n ↔ digits ≠ [] ∧ (∀ c ∈ digits, isDigit c = true) ∧
      n.toInt = 1 * Nat.ofDigitChars 10 digits 0 := by
  have hfits : ∀ m : Nat, m < Nat.pow 2 63 ↔
      -9223372036854775808 ≤ (1 : Int) * m ∧ (1 : Int) * m ≤ 9223372036854775807 := by
    intro m
    change m < 9223372036854775808 ↔ _
    omega
  rw [← bind_readDigits? hfits]
  simp only [Int.one_mul]
  rfl

theorem readInt64?_unsigned {c : Char} (rest : List Char) (hplus : c ≠ '+') (hminus : c ≠ '-') :
    readInt64? (c :: rest) = readInt64? ('+' :: c :: rest) := by
  simp [readInt64?, hplus, hminus]

theorem readInt64?_eq_some_iff {text : List Char} {n : Int64} :
    readInt64? text = some n ↔ Signed text n := by
  constructor
  · intro h
    cases text with
    | nil => cases h
    | cons c rest =>
      by_cases hplus : c = '+'
      · subst hplus
        exact ⟨['+'], 1, rest, .plus, rfl, readInt64?_plus_eq_some_iff.1 h⟩
      · by_cases hminus : c = '-'
        · subst hminus
          exact ⟨['-'], -1, rest, .minus, rfl, readInt64?_minus_eq_some_iff.1 h⟩
        · rw [readInt64?_unsigned rest hplus hminus] at h
          exact ⟨[], 1, c :: rest, .none, rfl, readInt64?_plus_eq_some_iff.1 h⟩
  · rintro ⟨sign, factor, digits, hsign, rfl, hdigits⟩
    cases hsign with
    | none =>
      cases digits with
      | nil => exact absurd rfl hdigits.1
      | cons c rest =>
        obtain ⟨hplus, hminus⟩ := ne_sign_of_isDigit (hdigits.2.1 c (List.mem_cons_self ..))
        rw [List.nil_append, readInt64?_unsigned rest hplus hminus]
        exact readInt64?_plus_eq_some_iff.2 hdigits
    | plus => exact readInt64?_plus_eq_some_iff.2 hdigits
    | minus => exact readInt64?_minus_eq_some_iff.2 hdigits

/-- The numeral of a natural number below a power of two: an optional plus sign and at least one
decimal digit. -/
def Unsigned (bits : Nat) (text : List Char) (n : Nat) : Prop :=
  ∃ sign digits, (sign = [] ∨ sign = ['+']) ∧ text = sign ++ digits ∧ digits ≠ [] ∧
    (∀ c ∈ digits, isDigit c = true) ∧ n = Nat.ofDigitChars 10 digits 0 ∧ n < Nat.pow 2 bits

theorem readUnsigned?_plus_eq_some_iff {bits n : Nat} {digits : List Char} :
    readUnsigned? bits ('+' :: digits) = some n ↔ digits ≠ [] ∧
      (∀ c ∈ digits, isDigit c = true) ∧ n = Nat.ofDigitChars 10 digits 0 ∧ n < Nat.pow 2 bits := by
  have hread : readUnsigned? bits ('+' :: digits) =
      (readDigits? digits).bind fun m => if m < Nat.pow 2 bits then some m else none := rfl
  rw [hread]
  simp only [Option.bind_eq_some_iff, readDigits?_eq_some_iff]
  constructor
  · rintro ⟨m, ⟨hne, hall, rfl⟩, hn⟩
    split at hn
    · rename_i hfits
      cases hn
      exact ⟨hne, hall, rfl, hfits⟩
    · cases hn
  · rintro ⟨hne, hall, rfl, hfits⟩
    exact ⟨_, ⟨hne, hall, rfl⟩, if_pos hfits⟩

theorem readUnsigned?_unsigned {c : Char} (bits : Nat) (rest : List Char) (hplus : c ≠ '+') :
    readUnsigned? bits (c :: rest) = readUnsigned? bits ('+' :: c :: rest) := by
  simp [readUnsigned?, hplus]

theorem readUnsigned?_eq_some_iff {bits n : Nat} {text : List Char} :
    readUnsigned? bits text = some n ↔ Unsigned bits text n := by
  constructor
  · intro h
    cases text with
    | nil => cases h
    | cons c rest =>
      by_cases hplus : c = '+'
      · subst hplus
        exact ⟨['+'], rest, .inr rfl, rfl, readUnsigned?_plus_eq_some_iff.1 h⟩
      · rw [readUnsigned?_unsigned bits rest hplus] at h
        exact ⟨[], c :: rest, .inl rfl, rfl, readUnsigned?_plus_eq_some_iff.1 h⟩
  · rintro ⟨sign, digits, hsign, rfl, hdigits⟩
    rcases hsign with rfl | rfl
    · cases digits with
      | nil => exact absurd rfl hdigits.1
      | cons c rest =>
        obtain ⟨hplus, -⟩ := ne_sign_of_isDigit (hdigits.2.1 c (List.mem_cons_self ..))
        rw [List.nil_append, readUnsigned?_unsigned bits rest hplus]
        exact readUnsigned?_plus_eq_some_iff.2 hdigits
    · exact readUnsigned?_plus_eq_some_iff.2 hdigits

theorem ofDigitChars_writeNat (n : Nat) : Nat.ofDigitChars 10 (writeNat n) 0 = n :=
  Nat.ofDigitChars_toDigits (by decide) (by decide)

theorem readInt64?_writeInt (n : Int64) : readInt64? (writeInt n.toInt) = some n := by
  have hall : ∀ c ∈ writeNat n.toInt.natAbs, isDigit c = true :=
    fun c hc => isDigit_of_mem_writeNat hc
  rw [writeInt, readInt64?_eq_some_iff]
  split
  · refine ⟨['-'], -1, writeNat n.toInt.natAbs, .minus, rfl, writeNat_ne_nil _, hall, ?_⟩
    rw [ofDigitChars_writeNat]
    omega
  · refine ⟨[], 1, writeNat n.toInt.natAbs, .none, rfl, writeNat_ne_nil _, hall, ?_⟩
    rw [ofDigitChars_writeNat]
    omega

end SlimeServer.Numeral
