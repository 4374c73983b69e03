import Mathlib.Algebra.Ring.Nat
import SlimeServer.Proofs.Text.Lossy
import SlimeServer.Proofs.Text.Utf8
/-!
# Characters that are not complete

While a decoder meets nothing malformed, the bytes that it has taken are those of the characters it
has read, and behind them those that have come of the next one. So the unfinished tail of any bytes
is the beginning of some character, and what stands before it is text.
-/
namespace SlimeServer.Utf8

def Unfinished (part : List UInt8) : Prop :=
  part ≠ [] ∧ ∃ c, part <+: encodeChar c ∧ part ≠ encodeChar c

theorem length_encodeChar_le (c : Char) : (encodeChar c).length ≤ 4 := by
  simp only [encodeChar]
  split
  · simp
  split
  · simp
  split <;> simp

theorem Unfinished.length_le {part : List UInt8} (h : Unfinished part) : part.length ≤ 3 := by
  obtain ⟨-, c, hbegins, hne⟩ := h
  have hle := hbegins.length_le
  have hfour := length_encodeChar_le c
  have hshort : part.length ≠ (encodeChar c).length := fun heq => hne (hbegins.eq_of_length heq)
  omega

def tailBytes (n : Nat) : Nat → List UInt8
  | 0 => []
  | count + 1 => tailByte (n / 64 ^ count) :: tailBytes n count

section

variable {n : Nat}

theorem toNat_ofNat_of_valid (h : n.isValidChar) : (Char.ofNat n).toNat = n := by
  rw [Char.ofNat, dif_pos h]
  rfl

theorem isValidChar_iff : n.isValidChar ↔ n < 0xD800 ∨ 0xDFFF < n ∧ n < 0x110000 := Iff.rfl

theorem encodeChar_one (h : n < 0x80) : encodeChar (Char.ofNat n) = [UInt8.ofNat n] := by
  have hvalid : n.isValidChar := isValidChar_iff.2 (by omega)
  simp only [encodeChar, toNat_ofNat_of_valid hvalid, if_pos h]

theorem encodeChar_two (hl : 0x80 ≤ n) (hh : n < 0x800) :
    n.isValidChar ∧
      encodeChar (Char.ofNat n) = [UInt8.ofNat (0xC0 + n / 64)] ++ tailBytes n 1 := by
  have hvalid : n.isValidChar := isValidChar_iff.2 (by omega)
  have h₁ : ¬ n < 0x80 := by omega
  refine ⟨hvalid, ?_⟩
  simp only [encodeChar, toNat_ofNat_of_valid hvalid, if_neg h₁, if_pos hh]
  simp [tailBytes]

theorem encodeChar_three (hl : 0x800 ≤ n) (hh : n < 0x10000) (hs : n < 0xD800 ∨ 0xDFFF < n) :
    n.isValidChar ∧
      encodeChar (Char.ofNat n) = [UInt8.ofNat (0xE0 + n / 4096)] ++ tailBytes n 2 := by
  have hvalid : n.isValidChar := isValidChar_iff.2 (by omega)
  have h₁ : ¬ n < 0x80 := by omega
  have h₂ : ¬ n < 0x800 := by omega
  refine ⟨hvalid, ?_⟩
  simp only [encodeChar, toNat_ofNat_of_valid hvalid, if_neg h₁, if_neg h₂, if_pos hh]
  simp [tailBytes]

theorem encodeChar_four (hl : 0x10000 ≤ n) (hh : n < 0x110000) :
    n.isValidChar ∧
      encodeChar (Char.ofNat n) = [UInt8.ofNat (0xF0 + n / 262144)] ++ tailBytes n 3 := by
  have hvalid : n.isValidChar := isValidChar_iff.2 (by omega)
  have h₁ : ¬ n < 0x80 := by omega
  have h₂ : ¬ n < 0x800 := by omega
  have h₃ : ¬ n < 0x10000 := by omega
  refine ⟨hvalid, ?_⟩
  simp only [encodeChar, toNat_ofNat_of_valid hvalid, if_neg h₁, if_neg h₂, if_neg h₃]
  simp [tailBytes]

theorem ofNat_eq_byte {b : UInt8} (h : n = b.toNat) : UInt8.ofNat n = b := by
  rw [h, UInt8.ofNat_toNat]

end

def nextBits (n count : Nat) : Nat := n / 64 ^ (count - 1) % 64

/-- What has come of a character to whom these bytes are owed: every number with the bits collected,
whose next byte is in range, is that of a character that goes on from there. -/
structure Owed.Begins (o : Owed) (part : List UInt8) : Prop where
  ne_nil : part ≠ []
  length : part.length = o.taken
  pos : 0 < o.count
  tails : o.Tails
  range : o.low ≤ o.high
  whole : ∀ n, n / 64 ^ o.count = o.bits → o.low ≤ 0x80 + nextBits n o.count →
    0x80 + nextBits n o.count ≤ o.high →
    n.isValidChar ∧ encodeChar (Char.ofNat n) = part ++ tailBytes n o.count

section

variable {o : Owed} {b : UInt8} {part : List UInt8} {items items' : List (Option Char)}

theorem begins_two (hl : 0xC2 ≤ b.toNat) (hh : b.toNat ≤ 0xDF) :
    (⟨1, 0x80, 0xBF, b.toNat - 0xC0, 1⟩ : Owed).Begins [b] where
  ne_nil := List.cons_ne_nil _ _
  length := rfl
  pos := Nat.one_pos
  tails := ⟨Nat.le_refl _, Nat.le_refl _⟩
  range := by simp
  whole := by
    intro n hbits _ _
    simp only [Nat.pow_one] at hbits
    obtain ⟨hvalid, hbytes⟩ := encodeChar_two (n := n) (by omega) (by omega)
    rw [ofNat_eq_byte (b := b) (by omega)] at hbytes
    exact ⟨hvalid, hbytes⟩

/-- The range of the second byte keeps the overlong forms and the surrogates out. -/
theorem begins_three {low high : Nat} (hl : 0xE0 ≤ b.toNat) (hh : b.toNat ≤ 0xEF)
    (hlow : 0x80 ≤ low) (hrange : low ≤ high) (hhigh : high ≤ 0xBF)
    (hlong : 0x800 ≤ (b.toNat - 0xE0) * 4096 + (low - 0x80) * 64)
    (hsurrogate : (b.toNat - 0xE0) * 4096 + (high - 0x80) * 64 + 63 < 0xD800 ∨
      0xDFFF < (b.toNat - 0xE0) * 4096 + (low - 0x80) * 64) :
    (⟨2, low, high, b.toNat - 0xE0, 1⟩ : Owed).Begins [b] where
  ne_nil := List.cons_ne_nil _ _
  length := rfl
  pos := Nat.two_pos
  tails := ⟨hlow, hhigh⟩
  range := hrange
  whole := by
    intro n hbits hnext hnext'
    simp only [nextBits, Nat.reduceSub, Nat.reducePow] at hbits hnext hnext'
    obtain ⟨hvalid, hbytes⟩ := encodeChar_three (n := n) (by omega) (by omega) (by omega)
    rw [ofNat_eq_byte (b := b) (by omega)] at hbytes
    exact ⟨hvalid, hbytes⟩

/-- The range of the second byte keeps the overlong forms and what lies beyond Unicode out. -/
theorem begins_four {low high : Nat} (hl : 0xF0 ≤ b.toNat) (hh : b.toNat ≤ 0xF4)
    (hlow : 0x80 ≤ low) (hrange : low ≤ high) (hhigh : high ≤ 0xBF)
    (hlong : 0x10000 ≤ (b.toNat - 0xF0) * 262144 + (low - 0x80) * 4096)
    (hbeyond : (b.toNat - 0xF0) * 262144 + (high - 0x80) * 4096 + 4095 < 0x110000) :
    (⟨3, low, high, b.toNat - 0xF0, 1⟩ : Owed).Begins [b] where
  ne_nil := List.cons_ne_nil _ _
  length := rfl
  pos := by simp
  tails := ⟨hlow, hhigh⟩
  range := hrange
  whole := by
    intro n hbits hnext hnext'
    simp only [nextBits, Nat.reduceSub, Nat.reducePow] at hbits hnext hnext'
    obtain ⟨hvalid, hbytes⟩ := encodeChar_four (n := n) (by omega) (by omega)
    rw [ofNat_eq_byte (b := b) (by omega)] at hbytes
    exact ⟨hvalid, hbytes⟩

/-- What a first byte can be: a character of its own, malformed, or the beginning of a character. -/
inductive Decoder.FirstReads (items : List (Option Char)) (b : UInt8) : Decoder → Prop where
  | character {c : Char} (hbytes : encodeChar c = [b]) : FirstReads items b ⟨none, some c :: items⟩
  | malformed : FirstReads items b ⟨none, none :: items⟩
  | begins {o : Owed} (h : o.Begins [b]) : FirstReads items b ⟨some o, items⟩

theorem first_reads (items : List (Option Char)) (b : UInt8) :
    Decoder.FirstReads items b (Decoder.first items b) := by
  simp only [Decoder.first]
  split
  · rename_i h
    exact .character (by rw [encodeChar_one h, UInt8.ofNat_toNat])
  split
  · rename_i h
    exact .begins (begins_two h.1 h.2)
  split
  · rename_i h
    rw [show 0 = b.toNat - 0xE0 by omega]
    exact .begins (begins_three (by omega) (by omega) (by omega) (by omega) (by omega) (by omega)
      (by omega))
  split
  · rename_i h
    rw [show 0xD = b.toNat - 0xE0 by omega]
    exact .begins (begins_three (by omega) (by omega) (by omega) (by omega) (by omega) (by omega)
      (by omega))
  split
  · exact .begins (begins_three (by omega) (by omega) (by omega) (by omega) (by omega) (by omega)
      (by omega))
  split
  · rename_i h
    rw [show 0 = b.toNat - 0xF0 by omega]
    exact .begins (begins_four (by omega) (by omega) (by omega) (by omega) (by omega) (by omega)
      (by omega))
  split
  · exact .begins (begins_four (by omega) (by omega) (by omega) (by omega) (by omega) (by omega)
      (by omega))
  split
  · rename_i h
    rw [show 4 = b.toNat - 0xF0 by omega]
    exact .begins (begins_four (by omega) (by omega) (by omega) (by omega) (by omega) (by omega)
      (by omega))
  · exact .malformed

/-- A byte that is admitted goes on with every character that has its bits next. -/
theorem Owed.Begins.goes_on (h : o.Begins part) (hb : o.Admits b) {n : Nat}
    (hn : n / 64 ^ (o.count - 1) = o.bits * 64 + (b.toNat - 0x80)) :
    n.isValidChar ∧ encodeChar (Char.ofNat n) = part ++ [b] ++ tailBytes n (o.count - 1) := by
  obtain ⟨count, hcount⟩ := Nat.exists_eq_add_one_of_ne_zero (Nat.ne_of_gt h.pos)
  have hlow := h.tails.1
  have hhigh := h.tails.2
  obtain ⟨hfrom, hto⟩ := hb
  have hwhole := h.whole n
  rw [hcount, Nat.add_sub_cancel] at hn
  rw [hcount, nextBits, Nat.add_sub_cancel] at hwhole
  have hbits : n / 64 ^ (count + 1) = o.bits := by
    rw [Nat.pow_succ, ← Nat.div_div_eq_div_mul, hn]
    omega
  have hnext : n / 64 ^ count % 64 = b.toNat - 0x80 := by omega
  obtain ⟨hvalid, hbytes⟩ := hwhole hbits (by omega) (by omega)
  have hbyte : tailByte (n / 64 ^ count) = b := by
    rw [tailByte, hnext]
    exact ofNat_eq_byte (by omega)
  rw [tailBytes, hbyte] at hbytes
  rw [hcount, Nat.add_sub_cancel, hbytes]
  exact ⟨hvalid, by simp⟩

/-- The last byte of a character completes it; another one leaves one byte less to come. -/
theorem Owed.Begins.feed (h : o.Begins part) (hb : o.Admits b) (items : List (Option Char)) :
    (∃ c, (⟨some o, items⟩ : Decoder).feed b = ⟨none, some c :: items⟩ ∧
        encodeChar c = part ++ [b]) ∨
      ∃ o', (⟨some o, items⟩ : Decoder).feed b = ⟨some o', items⟩ ∧ o'.Begins (part ++ [b]) := by
  have hrange : o.low ≤ b.toNat ∧ b.toNat ≤ o.high := hb
  simp only [Decoder.feed, hrange, and_self, if_true]
  by_cases hlast : o.count = 1
  · left
    obtain ⟨-, hbytes⟩ := h.goes_on hb (n := o.bits * 64 + (b.toNat - 0x80)) (by simp [hlast])
    rw [if_pos hlast]
    refine ⟨_, rfl, ?_⟩
    rw [hbytes, hlast]
    simp [tailBytes]
  · right
    rw [if_neg hlast]
    refine ⟨_, rfl, ?_⟩
    have hpos := h.pos
    exact {
      ne_nil := by simp
      length := by simp [h.length]
      pos := by
        show 0 < o.count - 1
        omega
      tails := ⟨Nat.le_refl _, Nat.le_refl _⟩
      range := by simp
      whole := fun n hn _ _ => h.goes_on hb hn }

/-- The bytes that begin a character can be gone on with to all of one. -/
theorem Owed.Begins.unfinished (h : o.Begins part) : Unfinished part := by
  obtain ⟨count, hcount⟩ := Nat.exists_eq_add_one_of_ne_zero (Nat.ne_of_gt h.pos)
  have hlow := h.tails.1
  have hhigh := h.tails.2
  have hrange := h.range
  have hwhole := h.whole ((o.bits * 64 + (o.low - 0x80)) * 64 ^ count)
  have hpos : 0 < 64 ^ count := Nat.pow_pos (by decide)
  rw [hcount, nextBits, Nat.add_sub_cancel, Nat.pow_succ, ← Nat.div_div_eq_div_mul,
    Nat.mul_div_cancel _ hpos] at hwhole
  obtain ⟨-, hbytes⟩ := hwhole (by omega) (by omega) (by omega)
  refine ⟨h.ne_nil, _, ⟨_, hbytes.symm⟩, ?_⟩
  rw [hbytes]
  intro heq
  have hlength := congrArg List.length heq
  simp [tailBytes] at hlength

end

/-- What a decoder has taken in which nothing was malformed: characters, and what has come of the
next one. -/
structure Decoder.Reads (d : Decoder) (text : List Char) (part : List UInt8) : Prop where
  items : d.items = (text.map some).reverse
  part : (d.owed = none ∧ part = []) ∨ ∃ o, d.owed = some o ∧ o.Begins part

theorem Decoder.reads_start : Decoder.start.Reads [] [] := ⟨rfl, .inl ⟨rfl, rfl⟩⟩

section

variable {d : Decoder} {text : List Char} {part : List UInt8}

theorem Decoder.Reads.feed (h : d.Reads text part) (b : UInt8) (hsound : none ∉ (d.feed b).items) :
    ∃ text' part', (d.feed b).Reads text' part' ∧
      text'.flatMap encodeChar ++ part' = text.flatMap encodeChar ++ part ++ [b] := by
  obtain ⟨owed, items⟩ := d
  obtain ⟨hitems, hpart⟩ := h
  obtain rfl : items = (text.map some).reverse := hitems
  have hcharacter : ∀ c, some c :: (text.map some).reverse = ((text ++ [c]).map some).reverse :=
    fun c => by simp
  rcases hpart with ⟨howed, rfl⟩ | ⟨o, howed, hbegins⟩
  · obtain rfl : owed = none := howed
    rw [feed_between] at hsound ⊢
    have hreads := first_reads (text.map some).reverse b
    generalize first (text.map some).reverse b = next at hreads hsound ⊢
    cases hreads with
    | @character c hbytes =>
      exact ⟨text ++ [c], [], ⟨hcharacter c, .inl ⟨rfl, rfl⟩⟩, by simp [hbytes]⟩
    | malformed => simp at hsound
    | @begins o hb => exact ⟨text, [b], ⟨rfl, .inr ⟨o, rfl, hb⟩⟩, by simp⟩
  · obtain rfl : owed = some o := howed
    by_cases hb : o.Admits b
    · rcases hbegins.feed hb (text.map some).reverse with ⟨c, hfeed, hbytes⟩ | ⟨o', hfeed, hmore⟩
      · rw [hfeed]
        exact ⟨text ++ [c], [], ⟨hcharacter c, .inl ⟨rfl, rfl⟩⟩, by simp [hbytes]⟩
      · rw [hfeed]
        exact ⟨text, part ++ [b], ⟨rfl, .inr ⟨o', rfl, hmore⟩⟩, by simp⟩
    · rw [feed_refused _ hb, first_items] at hsound
      simp at hsound

theorem Decoder.mem_items_run {item : Option Char} (bytes : List UInt8) (h : item ∈ d.items) :
    item ∈ (d.run bytes).items := by
  induction bytes generalizing d with
  | nil => exact h
  | cons b rest ih =>
    rw [run_cons]
    apply ih
    rw [feed_items]
    exact List.mem_append_right _ h

theorem Decoder.Reads.run (h : d.Reads text part) (bytes : List UInt8)
    (hsound : none ∉ (d.run bytes).items) :
    ∃ text' part', (d.run bytes).Reads text' part' ∧
      text'.flatMap encodeChar ++ part' = text.flatMap encodeChar ++ part ++ bytes := by
  induction bytes generalizing d text part with
  | nil => exact ⟨text, part, h, by simp⟩
  | cons b rest ih =>
    rw [run_cons] at hsound ⊢
    obtain ⟨text₁, part₁, h₁, hbytes₁⟩ :=
      h.feed b fun hmalformed => hsound (Decoder.mem_items_run rest hmalformed)
    obtain ⟨text₂, part₂, h₂, hbytes₂⟩ := ih h₁ hsound
    exact ⟨text₂, part₂, h₂, by rw [hbytes₂, hbytes₁]; simp⟩

end

/-- An unfinished tail is what has come of a character behind a text. -/
theorem exists_unfinished {bytes : List UInt8} (h : unfinishedTail bytes ≠ 0) :
    ∃ (text : List Char) (part : List UInt8), bytes = text.flatMap encodeChar ++ part ∧
      part.length = unfinishedTail bytes ∧ Unfinished part := by
  simp only [unfinishedTail] at h ⊢
  split at h
  · rename_i o howed
    split at h
    · rename_i hall
      have hsound : none ∉ (Decoder.start.run bytes).items := by
        intro hmem
        have := List.all_eq_true.1 hall none hmem
        cases this
      obtain ⟨text, part, hreads, hbytes⟩ := Decoder.reads_start.run bytes hsound
      rcases hreads.part with ⟨hnone, -⟩ | ⟨o', ho', hbegins⟩
      · rw [howed] at hnone
        cases hnone
      · obtain rfl : o = o' := Option.some.inj (howed.symm.trans ho')
        refine ⟨text, part, hbytes.symm, ?_, hbegins.unfinished⟩
        simp only [if_pos hall, hbegins.length]
    · exact absurd rfl h
  · exact absurd rfl h

end SlimeServer.Utf8
