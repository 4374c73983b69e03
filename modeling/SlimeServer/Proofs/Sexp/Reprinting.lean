import SlimeServer.Proofs.Number.Shortest
import SlimeServer.Proofs.Sexp.RoundTrip
/-!
# Printing what was read

A value that the reader has brought is read back from its text as itself, unless there is an
infinite float in it. A numeral beyond the largest finite number is read as such a float, which has
no numeral of its own: it is printed as `inf`, and that is the name of a symbol.
-/
namespace SlimeServer.Sexp

open Double (signChars spelling power)

section

variable {text chars whole fraction : List Char} {exponent? : Option Int} {q : ℚ} {x : Double}
  {negative : Bool} {m : Nat} {e : Int}

def numeralChars : List Char := ['+', '-', '.', 'e', 'E']

theorem mem_writeInt {n : Int} {c : Char} (h : c ∈ Numeral.writeInt n) :
    Numeral.isDigit c = true ∨ c ∈ numeralChars := by
  rw [Numeral.writeInt] at h
  split at h
  · rcases List.mem_cons.1 h with rfl | h
    · exact .inr (by decide)
    · exact .inl (Numeral.isDigit_of_mem_writeNat h)
  · exact .inl (Numeral.isDigit_of_mem_writeNat h)

theorem mem_spelling (hwhole : ∀ c ∈ whole, Numeral.isDigit c = true)
    (hfraction : ∀ c ∈ fraction, Numeral.isDigit c = true) :
    ∀ c ∈ spelling whole fraction exponent?, Numeral.isDigit c = true ∨ c ∈ numeralChars := by
  intro c hc
  rcases List.mem_append.1 hc with hc | hc
  · exact .inl (hwhole c hc)
  · rcases List.mem_append.1 hc with hc | hc
    · split at hc
      · cases hc
      · rcases List.mem_cons.1 hc with rfl | hc
        · exact .inr (by decide)
        · exact .inl (hfraction c hc)
    · cases exponent? with
      | none => cases hc
      | some n =>
        rcases List.mem_cons.1 hc with rfl | hc
        · exact .inr (by decide)
        · exact mem_writeInt hc

theorem looksNumeric_of_spells (h : Double.Spells text q) (negative : Bool) :
    looksNumeric (signChars negative ++ text) = true := by
  obtain ⟨whole, fraction, exponent?, rfl, hne, hwhole, hfraction, -, -⟩ := h
  have hmem : ∀ c ∈ signChars negative ++ spelling whole fraction exponent?,
      Numeral.isDigit c = true ∨ c ∈ numeralChars := by
    refine List.forall_mem_append.2 ⟨?_, mem_spelling hwhole hfraction⟩
    cases negative with
    | false => simp [signChars]
    | true => simp [signChars, numeralChars]
  cases whole with
  | nil => exact absurd rfl hne
  | cons d more =>
    have hd := hwhole d (List.mem_cons_self ..)
    obtain ⟨hplus, hminus⟩ := Numeral.ne_sign_of_isDigit hd
    have hpoint : d ≠ '.' := by
      rintro rfl
      cases hd
    obtain ⟨rest, hrest⟩ : ∃ rest, spelling (d :: more) fraction exponent? = d :: rest := ⟨_, rfl⟩
    rw [hrest] at hmem ⊢
    cases negative with
    | false => simpa [looksNumeric, hplus, hminus, hpoint, hd, numeralChars, signChars,
        or_assoc] using hmem
    | true => simpa [looksNumeric, hpoint, hd, numeralChars, signChars, or_assoc] using hmem

/-- The numeral of an integer has signs and digits in it only, and a point at its end. -/
theorem mem_integerAtom {n : Int64} (h : IntegerAtom chars n) :
    (∀ c ∈ chars, Numeral.isDigit c = true ∨ c = '+' ∨ c = '-' ∨ c = '.') ∧
      ('.' ∈ chars → chars.getLast? = some '.') := by
  obtain ⟨numeral, point, rfl, ⟨sign, factor, digits, hsign, rfl, hne, hall, -⟩, hpoint⟩ := h
  have hnumeral : ∀ c ∈ sign ++ digits, Numeral.isDigit c = true ∨ c = '+' ∨ c = '-' := by
    refine List.forall_mem_append.2 ⟨?_, fun c hc => .inl (hall c hc)⟩
    cases hsign <;> simp
  have hdot : '.' ∉ sign ++ digits := fun hmem => by
    rcases hnumeral '.' hmem with h | h | h <;> cases h
  rcases hpoint with rfl | rfl
  · rw [List.append_nil]
    exact ⟨fun c hc => (hnumeral c hc).imp_right fun h => h.imp_right .inl, fun h => absurd h hdot⟩
  · refine ⟨List.forall_mem_append.2 ⟨?_, by simp⟩, fun _ => List.getLast?_concat⟩
    exact fun c hc => (hnumeral c hc).imp_right fun h => h.imp_right .inl

theorem not_integerAtom_of_spells (h : Double.Spells text q) (negative : Bool) (n : Int64) :
    ¬ IntegerAtom (signChars negative ++ text) n := by
  obtain ⟨whole, fraction, exponent?, rfl, -, -, hfraction, hshape, -⟩ := h
  intro hinteger
  obtain ⟨hchars, hlast⟩ := mem_integerAtom hinteger
  cases exponent? with
  | some z =>
    have he : 'e' ∈ signChars negative ++ spelling whole fraction (some z) := by
      simp [spelling, power]
    rcases hchars 'e' he with h | h | h | h <;> cases h
  | none =>
    have hne : fraction ≠ [] := hshape.resolve_right (· rfl)
    have hend : signChars negative ++ spelling whole fraction none =
        (signChars negative ++ whole ++ ['.']) ++ fraction := by
      simp [spelling, power, hne]
    rw [hend] at hlast
    have hdot := hlast (by simp)
    rw [List.getLast?_append, List.getLast?_eq_some_getLast hne] at hdot
    have hdigit := hfraction _ (List.getLast_mem hne)
    rw [Option.some.inj hdot] at hdigit
    cases hdigit

theorem ofAtom_write_finite (hx : (Double.finite negative m e).Canonical) :
    ofAtom (Double.finite negative m e).write = .float (.finite negative m e) := by
  obtain ⟨text, q, hwrite, hspells, -⟩ := Double.exists_write hx
  have hread := Double.ofChars?_write hx
  rw [hwrite] at hread ⊢
  have hnumeric := looksNumeric_of_spells hspells negative
  exact ofAtom_of_denotes (.float (fun _ => not_namedAtom_of_looksNumeric hnumeric)
    (not_integerAtom_of_spells hspells negative) ⟨hnumeric, hread⟩)

theorem ofAtom_write_infinite (negative : Bool) :
    ofAtom (Double.infinite negative).write =
      .symbol (String.ofList (Double.infinite negative).write) := by
  cases negative <;> decide

theorem ofAtom_write_iff (hx : x.Canonical) (hnan : x ≠ .nan) :
    ofAtom x.write = .float x ↔ ∀ negative, x ≠ .infinite negative := by
  cases x with
  | nan => exact absurd rfl hnan
  | infinite negative =>
    rw [ofAtom_write_infinite]
    simp
  | finite negative m e =>
    rw [ofAtom_write_finite hx]
    simp

end

theorem normal_list_cons (item : Sexp) (rest : List Sexp) :
    (list (item :: rest)).normal = list (item.normal :: normalOf rest) := rfl

mutual
/-- No list in a datum is empty. -/
theorem normal_of_datum {lexemes : List Lexeme} {value : Sexp} :
    Datum lexemes value → value.normal = value
  | .atom hdenotes => by
    cases hdenotes with
    | named hname => rcases hname with ⟨-, rfl⟩ | ⟨-, rfl⟩ <;> rfl
    | _ => rfl
  | .text chars => rfl
  | .quote hdatum => by
    rw [normal_list_cons, normalOf, normal_of_datum hdatum]
    rfl
  | .empty => rfl
  | .list hdata => by
    have hitems := normal_of_data hdata
    rw [normalOf] at hitems
    rw [normal_list_cons, hitems]
theorem normal_of_data {lexemes : List Lexeme} {items : List Sexp} :
    Data lexemes items → normalOf items = items
  | .nil => rfl
  | .cons hfirst hmore => by
    rw [normalOf, normal_of_datum hfirst, normal_of_data hmore]
end

mutual
/-- Every float in a datum is read from a numeral. -/
theorem float_of_datum {lexemes : List Lexeme} {value : Sexp} {x : Double} :
    Datum lexemes value → .float x ∈ value.leaves → ∃ chars, Double.ofChars? chars = some x
  | .atom hdenotes => fun hx => by
    cases hdenotes with
    | named hname => rcases hname with ⟨-, rfl⟩ | ⟨-, rfl⟩ <;> simp [leaves] at hx
    | integer _ => simp [leaves] at hx
    | float _ _ hfloat =>
      cases List.mem_singleton.1 hx
      exact ⟨_, hfloat.2⟩
    | symbol => simp [leaves] at hx
  | .text chars => fun hx => by simp [leaves] at hx
  | .quote hdatum => fun hx =>
    float_of_datum hdatum (by simpa [leaves, leavesOf] using hx)
  | .empty => fun hx => by simp [leaves] at hx
  | .list hdata => float_of_data hdata
theorem float_of_data {lexemes : List Lexeme} {items : List Sexp} {x : Double} :
    Data lexemes items → .float x ∈ leavesOf items → ∃ chars, Double.ofChars? chars = some x
  | .nil => fun hx => by cases hx
  | .cons hfirst hmore => fun hx => by
    rcases List.mem_append.1 hx with hx | hx
    · exact float_of_datum hfirst hx
    · exact float_of_data hmore hx
end

/-- A value that was read is read back from its text exactly when no float in it is infinite. -/
theorem read_print_of_read {text : String} {value : Sexp} (h : read text = .ok value) :
    read value.print = .ok value ↔ ∀ negative, .float (.infinite negative) ∉ value.leaves := by
  obtain ⟨lexemes, -, hdatum⟩ := read_eq_ok_iff_spells.1 h
  have hiff : value.ReadsBack ↔ _ := readsBack_iff
  rw [ReadsBack, normal_of_datum hdatum] at hiff
  rw [hiff]
  constructor
  · rintro ⟨-, hfloats⟩ negative hmem
    have hkept := hfloats _ hmem
    rw [ofAtom_write_infinite] at hkept
    cases hkept
  · intro hfinite
    refine ⟨readable_of_read h, fun x hx => ?_⟩
    obtain ⟨chars, hchars⟩ := float_of_datum hdatum hx
    obtain ⟨hcanonical, hnan⟩ := Double.canonical_of_ofChars? hchars
    refine (ofAtom_write_iff hcanonical hnan).2 fun negative hinfinite => ?_
    exact hfinite negative (hinfinite ▸ hx)

def floats : Sexp :=
  .list [.float (.finite false 5960464477539062 24), .float (.finite true 0 (-1074)),
    .float (.finite false 7205759403792794 (-56))]

theorem read_print_floats : read "(1e23 -0.0 0.1)" = .ok floats ∧
    read floats.print = .ok floats := by
  have hread : read "(1e23 -0.0 0.1)" = .ok floats := by decide +kernel
  refine ⟨hread, (read_print_of_read hread).2 fun negative hmem => ?_⟩
  simp [floats, leaves, leavesOf] at hmem

/-- A numeral that is too large for a finite number is printed as the name of a symbol. -/
theorem overflow_not_read_back : ∃ value,
    read "1e400" = .ok value ∧ read value.print ≠ .ok value :=
  ⟨.float (.infinite false), by decide, by decide⟩

end SlimeServer.Sexp
