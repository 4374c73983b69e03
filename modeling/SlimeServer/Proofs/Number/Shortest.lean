import SlimeServer.Number.Shortest
import SlimeServer.Proofs.Number.Decimal
/-!
# Shortest texts read back

A canonical finite number is read back from its shortest text. The search for the text only ends
with decimals that read back, and the exact value behind it does. The zeros that are stripped, the
point and the exponent leave the value of the decimal as it is.
-/
namespace SlimeServer.Double

open Numeral

section

variable {negative : Bool} {m : Nat} {e k : Int} {d : Decimal}

theorem readsBack_of_shortAt (h : shortAt m e k = some d) : readsBack m e d = true := by
  simp only [shortAt] at h
  split at h
  · cases h
    assumption
  · split at h
    · cases h
      assumption
    · cases h

theorem exact_value (m : Nat) (e : Int) :
    ((exact m e).digits : ℚ) * 10 ^ (exact m e).exponent = m * 2 ^ e := by
  rw [exact]
  split
  · rename_i he
    simp only [Nat.pow_eq, Nat.cast_mul, Nat.cast_pow, Nat.cast_ofNat, pow_toNat he, zpow_zero,
      mul_one]
  · rename_i he
    simp only [Nat.pow_eq, Nat.cast_mul, Nat.cast_pow, Nat.cast_ofNat, pow_neg_toNat he]
    rw [show (10 : ℚ) = 2 * 5 by norm_num, mul_zpow]
    field_simp

theorem ofDecimal_shortest (hx : (finite negative m e).Canonical) (hm : m ≠ 0) :
    ofDecimal negative (shortest m e).digits (shortest m e).exponent = finite negative m e := by
  rw [ofDecimal_eq_finite_iff]
  simp only [shortest]
  cases hfound : (List.range 20).findSome? fun i : Nat =>
      shortAt m e (magnitude (ratio m e).1 (ratio m e).2 + 1 - (i : Int)) with
  | none => exact ofDecimal_exact hx hm (exact_value m e)
  | some d =>
    obtain ⟨i, -, hi⟩ := List.exists_of_findSome?_eq_some hfound
    exact beq_iff_eq.1 (readsBack_of_shortAt hi)

theorem digits_shortest_ne_zero (hx : (finite negative m e).Canonical) (hm : m ≠ 0) :
    (shortest m e).digits ≠ 0 := by
  intro hzero
  have hread := ofDecimal_shortest hx hm
  rw [hzero, ofDecimal_zero, zero] at hread
  injection hread with _ hmantissa _
  exact hm hmantissa.symm

end

section

variable {negative : Bool} {digits whole fraction rest text : List Char} {exponent? : Option Int}
  {exponent point : Int} {q : ℚ}

theorem exists_stripZeros (digits : List Char) (exponent : Int) :
    ∃ n : Nat, digits = (stripZeros digits exponent).1 ++ List.replicate n '0' ∧
      (stripZeros digits exponent).2 = exponent + n := by
  have hzeros : ∀ c ∈ digits.reverse.takeWhile (· = '0'), c = '0' := fun c hc => by
    simpa using List.all_eq_true.1 (List.all_takeWhile (p := (· = '0'))) c hc
  have hsplit := congrArg List.reverse
    (List.takeWhile_append_dropWhile (p := (· = '0')) (l := digits.reverse))
  rw [List.reverse_reverse, List.reverse_append, List.eq_replicate_of_mem hzeros,
    List.reverse_replicate] at hsplit
  refine ⟨_, hsplit.symm, ?_⟩
  simp only [stripZeros]
  have hlength := congrArg List.length hsplit
  rw [List.length_append, List.length_replicate] at hlength
  omega

theorem stripZeros_value (digits : List Char) (exponent : Int) :
    (valueOf (stripZeros digits exponent).1 : ℚ) * 10 ^ (stripZeros digits exponent).2 =
      valueOf digits * 10 ^ exponent := by
  obtain ⟨n, hdigits, hexponent⟩ := exists_stripZeros digits exponent
  rw [hexponent, zpow_add₀ (by norm_num)]
  conv_rhs => rw [hdigits, valueOf_append_zeros]
  rw [zpow_natCast]
  push_cast
  ring

def power : Option Int → List Char
  | none => []
  | some n => 'e' :: writeInt n

def spelling (whole fraction : List Char) (exponent? : Option Int) : List Char :=
  whole ++ ((if fraction = [] then [] else '.' :: fraction) ++ power exponent?)

/-- The text is a decimal with a point or an exponent in it, and this is its value. -/
def Spells (text : List Char) (q : ℚ) : Prop :=
  ∃ whole fraction exponent?, text = spelling whole fraction exponent? ∧ whole ≠ [] ∧
    (∀ c ∈ whole, isDigit c = true) ∧ (∀ c ∈ fraction, isDigit c = true) ∧
    (fraction ≠ [] ∨ exponent? ≠ none) ∧
    (valueOf (whole ++ fraction) : ℚ) * 10 ^ (exponent?.getD 0 - fraction.length) = q

theorem isDigit_zero : isDigit '0' = true := by decide

theorem isDigit_of_mem_zeros {n : Nat} : ∀ c ∈ List.replicate n '0', isDigit c = true := by
  intro c hc
  rw [List.eq_of_mem_replicate hc]
  exact isDigit_zero

theorem spells_point (hne : whole ≠ []) (hwhole : ∀ c ∈ whole, isDigit c = true)
    (hsome : fraction ≠ []) (hfraction : ∀ c ∈ fraction, isDigit c = true)
    (hvalue : (valueOf (whole ++ fraction) : ℚ) * 10 ^ (-fraction.length : Int) = q) :
    Spells (whole ++ '.' :: fraction) q :=
  ⟨whole, fraction, none, by simp [spelling, power, hsome], hne, hwhole, hfraction, .inl hsome,
    by rwa [Option.getD_none, zero_sub]⟩

theorem spells_positional (hne : digits ≠ []) (hall : ∀ c ∈ digits, isDigit c = true)
    (point : Int) :
    Spells (positional digits point) (valueOf digits * 10 ^ (point - digits.length)) := by
  have hzero : ∀ c ∈ ['0'], isDigit c = true := List.forall_mem_singleton.2 isDigit_zero
  have hone : ['0'] = List.replicate 1 '0' := rfl
  rw [positional]
  split
  · rename_i hpoint
    -- All digits are behind the point.
    change Spells (['0'] ++ '.' :: _) _
    refine spells_point (by simp) hzero (by simp [hne])
      (List.forall_mem_append.2 ⟨isDigit_of_mem_zeros, hall⟩) ?_
    rw [← List.append_assoc, hone, ← List.replicate_add, valueOf_zeros_append, List.length_append,
      List.length_replicate]
    congr 2
    omega
  · split
    · rename_i hpoint hlt
      have htake : digits.take point.toNat ≠ [] := by
        rw [ne_eq, List.take_eq_nil_iff, not_or]
        exact ⟨by omega, hne⟩
      refine spells_point htake (fun c hc => hall c (List.mem_of_mem_take hc)) (by simp [hlt])
        (fun c hc => hall c (List.mem_of_mem_drop hc)) ?_
      rw [List.take_append_drop, List.length_drop]
      congr 2
      omega
    · rename_i hpoint hge
      refine spells_point (by simp [hne])
        (List.forall_mem_append.2 ⟨hall, isDigit_of_mem_zeros⟩) (by simp) hzero ?_
      have hplace : point - digits.length =
          ((point.toNat - digits.length + 1 : Nat) : Int) + (-(1 : Nat) : Int) := by omega
      rw [List.append_assoc, hone, ← List.replicate_add, valueOf_append_zeros, hplace,
        zpow_add₀ (by norm_num), zpow_natCast, List.length_replicate]
      push_cast
      ring

theorem spells_exponential (hne : digits ≠ []) (hall : ∀ c ∈ digits, isDigit c = true)
    (point : Int) :
    Spells (exponential digits point) (valueOf digits * 10 ^ (point - digits.length)) := by
  cases digits with
  | nil => exact absurd rfl hne
  | cons d rest =>
    refine ⟨[d], rest, some (point - 1), ?_, by simp, ?_, ?_, by simp, ?_⟩
    · cases rest with
      | nil => rfl
      | cons c rest => simp [exponential, spelling, power]
    · exact List.forall_mem_singleton.2 (hall d (List.mem_cons_self ..))
    · exact fun c hc => hall c (List.mem_cons_of_mem _ hc)
    · rw [List.singleton_append, List.length_cons, Option.getD_some]
      congr 2
      push_cast
      ring

/-- A sign in front of a text, and the text behind it. -/
def signed (text : List Char) : Bool × List Char :=
  match text with
  | '+' :: rest => (false, rest)
  | '-' :: rest => (true, rest)
  | _ => (false, text)

def fractionOf (text : List Char) : List Char × List Char :=
  match text with
  | '.' :: more => more.span isDigit
  | _ => ([], text)

theorem scientific?_open {sign : Bool × List Char} {whole fraction : List Char × List Char}
    (hsign : signed text = sign) (hwhole : sign.2.span isDigit = whole)
    (hfraction : fractionOf whole.2 = fraction) :
    scientific? text = if whole.1 = [] ∧ fraction.1 = [] then none else match fraction.2 with
      | [] => some ⟨sign.1, whole.1, fraction.1, 0⟩
      | c :: more =>
        if c = 'e' ∨ c = 'E' then (readDigits? (signed more).2).bind fun n =>
          some ⟨sign.1, whole.1, fraction.1, if (signed more).1 then -(n : Int) else n⟩
        else none := by
  subst hsign hwhole hfraction
  rfl

theorem signed_digits (hne : digits ≠ []) (hall : ∀ c ∈ digits, isDigit c = true) :
    signed (digits ++ rest) = (false, digits ++ rest) := by
  cases digits with
  | nil => exact absurd rfl hne
  | cons c more =>
    obtain ⟨hplus, hminus⟩ := ne_sign_of_isDigit (hall c (List.mem_cons_self ..))
    simp [signed, hplus, hminus]

def signChars (negative : Bool) : List Char := if negative then ['-'] else []

theorem signed_signChars (hne : digits ≠ []) (hall : ∀ c ∈ digits, isDigit c = true) :
    signed (signChars negative ++ (digits ++ rest)) = (negative, digits ++ rest) := by
  cases negative with
  | false =>
    change signed (digits ++ rest) = _
    exact signed_digits hne hall
  | true => rfl

theorem signed_writeInt (n : Int) :
    signed (writeInt n) = (decide (n < 0), writeNat n.natAbs) := by
  rw [writeInt]
  split
  · rename_i hneg
    simp [signed, hneg]
  · rename_i hneg
    have hdigits : signed (writeNat n.natAbs ++ []) = _ :=
      signed_digits (writeNat_ne_nil n.natAbs) (isDigit_writeNat _)
    rw [List.append_nil] at hdigits
    simp [hdigits, hneg]

theorem span_digits (h : ∀ c ∈ whole, isDigit c = true)
    (hrest : ∀ c ∈ rest.head?, isDigit c = false) :
    (whole ++ rest).span isDigit = (whole, rest) := by
  rw [List.span_eq_takeWhile_dropWhile, List.takeWhile_append_of_pos h,
    List.dropWhile_append_of_pos h]
  cases rest with
  | nil => simp
  | cons c rest =>
    have hc := hrest c rfl
    simp [hc]

theorem head?_power : ∀ c ∈ (power exponent?).head?, isDigit c = false := by
  cases exponent? with
  | none => simp [power]
  | some n => simp [power, isDigit]

theorem fractionOf_spelled (hall : ∀ c ∈ fraction, isDigit c = true) :
    fractionOf ((if fraction = [] then [] else '.' :: fraction) ++ power exponent?) =
      (fraction, power exponent?) := by
  cases fraction with
  | nil => cases exponent? <;> rfl
  | cons c more => exact span_digits hall head?_power

theorem scientific?_spelling (hne : whole ≠ []) (hwhole : ∀ c ∈ whole, isDigit c = true)
    (hfraction : ∀ c ∈ fraction, isDigit c = true) :
    scientific? (signChars negative ++ spelling whole fraction exponent?) =
      some ⟨negative, whole, fraction, exponent?.getD 0⟩ := by
  have hrest : ∀ c ∈ ((if fraction = [] then [] else '.' :: fraction) ++ power exponent?).head?,
      isDigit c = false := by
    split
    · exact head?_power
    · simp [isDigit]
  rw [spelling, scientific?_open (signed_signChars hne hwhole) (span_digits hwhole hrest)
    (fractionOf_spelled hfraction), if_neg fun h => hne h.1]
  cases exponent? with
  | none => rfl
  | some n =>
    simp only [power, signed_writeInt, readDigits?_writeNat, Option.bind_some,
      Option.getD_some, true_or, if_true, decide_eq_true_eq]
    congr 2
    split <;> omega

theorem ofChars?_of_spells (h : Spells text q) (negative : Bool) : ∃ digits exponent,
    ((digits : Nat) : ℚ) * 10 ^ (exponent : Int) = q ∧
      ofChars? (signChars negative ++ text) = some (ofDecimal negative digits exponent) := by
  obtain ⟨whole, fraction, exponent?, rfl, hne, hwhole, hfraction, -, hvalue⟩ := h
  refine ⟨_, _, hvalue, ?_⟩
  rw [ofChars?, scientific?_spelling hne hwhole hfraction]
  rfl

end

section

variable {negative : Bool} {m : Nat} {e : Int}

theorem spells_zero : Spells "0.0".toList 0 :=
  ⟨['0'], ['0'], none, rfl, by simp, List.forall_mem_singleton.2 isDigit_zero,
    List.forall_mem_singleton.2 isDigit_zero, by simp, by simp [valueOf, digitValue]⟩

/-- The text of a number that is not zero spells its shortest decimal behind the sign. -/
theorem exists_write_of_ne_zero (hx : (finite negative m e).Canonical) (hm : m ≠ 0) :
    ∃ text, (finite negative m e).write = signChars negative ++ text ∧
      Spells text ((shortest m e).digits * 10 ^ (shortest m e).exponent) := by
  have hvalue := stripZeros_value (writeNat (shortest m e).digits) (shortest m e).exponent
  rw [valueOf_writeNat] at hvalue
  simp only [write, if_neg hm]
  generalize hkept : stripZeros (writeNat (shortest m e).digits) (shortest m e).exponent = kept
    at hvalue
  refine ⟨_, rfl, ?_⟩
  have hne : kept.1 ≠ [] := by
    intro hnil
    rw [hnil, valueOf_nil, Nat.cast_zero, zero_mul, eq_comm, decimal_eq_zero] at hvalue
    exact digits_shortest_ne_zero hx hm hvalue
  have hall : ∀ c ∈ kept.1, isDigit c = true := by
    intro c hc
    obtain ⟨n, hdigits, -⟩ :=
      exists_stripZeros (writeNat (shortest m e).digits) (shortest m e).exponent
    rw [hkept] at hdigits
    exact isDigit_of_mem_writeNat (hdigits ▸ List.mem_append_left _ hc)
  rw [← hvalue]
  split
  · have hspells := spells_positional hne hall (kept.1.length + kept.2)
    rwa [add_sub_cancel_left] at hspells
  · have hspells := spells_exponential hne hall (kept.1.length + kept.2)
    rwa [add_sub_cancel_left] at hspells

/-- The text of a finite number spells, behind the sign, a value that is read as the number. -/
theorem exists_write (hx : (finite negative m e).Canonical) : ∃ text q,
    (finite negative m e).write = signChars negative ++ text ∧ Spells text q ∧
      ∀ (digits : Nat) (exponent : Int), (digits : ℚ) * 10 ^ exponent = q →
        ofDecimal negative digits exponent = finite negative m e := by
  by_cases hm : m = 0
  · refine ⟨_, 0, by simp only [write, if_pos hm]; rfl, spells_zero, ?_⟩
    intro digits exponent hzero
    have he : e = minExponent := by
      obtain ⟨-, -, -, hfull⟩ := hx
      rw [hm] at hfull
      exact hfull.resolve_left (by decide)
    rw [decimal_eq_zero.1 hzero, ofDecimal_zero, hm, he, zero]
  · obtain ⟨text, hwrite, hspells⟩ := exists_write_of_ne_zero hx hm
    refine ⟨text, _, hwrite, hspells, fun digits exponent hvalue => ?_⟩
    rw [ofDecimal_congr hvalue]
    exact ofDecimal_shortest hx hm

theorem ofChars?_write (hx : (finite negative m e).Canonical) :
    ofChars? (finite negative m e).write = some (finite negative m e) := by
  obtain ⟨text, q, hwrite, hspells, hread⟩ := exists_write hx
  obtain ⟨digits, exponent, hvalue, hchars⟩ := ofChars?_of_spells hspells negative
  rw [hwrite, hchars, hread digits exponent hvalue]

theorem canonical_of_ofChars? {chars : List Char} {x : Double} (h : ofChars? chars = some x) :
    x.Canonical ∧ x ≠ nan := by
  obtain ⟨s, -, rfl⟩ := Option.map_eq_some_iff.1 h
  exact ⟨canonical_ofDecimal, ofDecimal_ne_nan⟩

end

end SlimeServer.Double
