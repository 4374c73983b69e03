import SlimeServer.Text.Utf8
/-!
# Decoding written text

A text that was written as UTF-8 is read back as it was. A beginning of its bytes ends inside at
most one character, and the unfinished tail is exactly what has come of that character.
-/
namespace SlimeServer.Utf8

theorem toNat_ranges (c : Char) : c.toNat < 0xD800 ∨ 0xDFFF < c.toNat ∧ c.toNat < 0x110000 := by
  have := c.valid
  simp only [UInt32.isValidChar, Nat.isValidChar] at this
  exact this

theorem ofNat_eq {c : Char} {n : Nat} (h : n = c.toNat) : Char.ofNat n = c := by
  rw [h, Char.ofNat_toNat]

theorem feed_tailByte {o : Owed} {n : Nat} (items : List (Option Char))
    (hl : o.low ≤ 0x80 + n % 64) (hh : 0x80 + n % 64 ≤ o.high) :
    (⟨some o, items⟩ : Decoder).feed (tailByte n) =
      if o.count = 1 then ⟨none, some (Char.ofNat (o.bits * 64 + n % 64)) :: items⟩
      else ⟨some ⟨o.count - 1, 0x80, 0xBF, o.bits * 64 + n % 64, o.taken + 1⟩, items⟩ := by
  have hb : (tailByte n).toNat = 0x80 + n % 64 := by
    simp only [tailByte, UInt8.toNat_ofNat']
    omega
  have hs : 0x80 + n % 64 - 0x80 = n % 64 := by omega
  simp only [Decoder.feed, hb, hl, hh, and_self, if_true, hs]

theorem feed_last {low high bits taken n : Nat} (items : List (Option Char))
    (hl : low ≤ 0x80 + n % 64) (hh : 0x80 + n % 64 ≤ high) :
    (⟨some ⟨1, low, high, bits, taken⟩, items⟩ : Decoder).feed (tailByte n) =
      ⟨none, some (Char.ofNat (bits * 64 + n % 64)) :: items⟩ := by
  rw [feed_tailByte items hl hh, if_pos rfl]

theorem feed_more {count low high bits taken n : Nat} (items : List (Option Char))
    (hl : low ≤ 0x80 + n % 64) (hh : 0x80 + n % 64 ≤ high) :
    (⟨some ⟨count + 2, low, high, bits, taken⟩, items⟩ : Decoder).feed (tailByte n) =
      ⟨some ⟨count + 1, 0x80, 0xBF, bits * 64 + n % 64, taken + 1⟩, items⟩ := by
  rw [feed_tailByte items hl hh, if_neg (by simp)]
  rfl

theorem first_two {n : Nat} (items : List (Option Char)) (hl : 0x80 ≤ n) (hh : n < 0x800) :
    Decoder.first items (UInt8.ofNat (0xC0 + n / 64)) =
      ⟨some ⟨1, 0x80, 0xBF, n / 64, 1⟩, items⟩ := by
  have hb : (UInt8.ofNat (0xC0 + n / 64)).toNat = 0xC0 + n / 64 := by
    simp only [UInt8.toNat_ofNat']
    omega
  have h₁ : ¬ 0xC0 + n / 64 < 0x80 := by omega
  have h₂ : 0xC2 ≤ 0xC0 + n / 64 ∧ 0xC0 + n / 64 ≤ 0xDF := by omega
  have hs : 0xC0 + n / 64 - 0xC0 = n / 64 := by omega
  simp only [Decoder.first, hb, h₁, h₂, if_false, if_true, and_self, hs]

/-- The first of three bytes keeps the second one out of the overlong forms and the surrogates. -/
theorem first_three {n : Nat} (items : List (Option Char)) (hl : 0x800 ≤ n) (hh : n < 0x10000)
    (hs : n < 0xD800 ∨ 0xDFFF < n) :
    ∃ low high, Decoder.first items (UInt8.ofNat (0xE0 + n / 4096)) =
        ⟨some ⟨2, low, high, n / 4096, 1⟩, items⟩ ∧
      low ≤ 0x80 + n / 64 % 64 ∧ 0x80 + n / 64 % 64 ≤ high := by
  have hb : (UInt8.ofNat (0xE0 + n / 4096)).toNat = 0xE0 + n / 4096 := by
    simp only [UInt8.toNat_ofNat']
    omega
  have h₁ : ¬ 0xE0 + n / 4096 < 0x80 := by omega
  have h₂ : ¬ (0xC2 ≤ 0xE0 + n / 4096 ∧ 0xE0 + n / 4096 ≤ 0xDF) := by omega
  simp only [Decoder.first, hb, h₁, h₂, if_false]
  by_cases h0 : n / 4096 = 0
  · exact ⟨0xA0, 0xBF, by simp [h0], by omega, by omega⟩
  by_cases hd : n / 4096 = 0xD
  · exact ⟨0x80, 0x9F, by simp [hd], by omega, by omega⟩
  have h₃ : ¬ 0xE0 + n / 4096 = 0xE0 := by omega
  have h₄ : ¬ 0xE0 + n / 4096 = 0xED := by omega
  have h₅ : 0xE1 ≤ 0xE0 + n / 4096 ∧ 0xE0 + n / 4096 ≤ 0xEF := by omega
  have hv : 0xE0 + n / 4096 - 0xE0 = n / 4096 := by omega
  refine ⟨0x80, 0xBF, ?_, by omega, by omega⟩
  simp only [h₃, h₄, h₅, if_false, if_true, and_self, hv]

/-- The first of four bytes keeps the second one within the range of Unicode. -/
theorem first_four {n : Nat} (items : List (Option Char)) (hl : 0x10000 ≤ n)
    (hh : n < 0x110000) :
    ∃ low high, Decoder.first items (UInt8.ofNat (0xF0 + n / 262144)) =
        ⟨some ⟨3, low, high, n / 262144, 1⟩, items⟩ ∧
      low ≤ 0x80 + n / 4096 % 64 ∧ 0x80 + n / 4096 % 64 ≤ high := by
  have hb : (UInt8.ofNat (0xF0 + n / 262144)).toNat = 0xF0 + n / 262144 := by
    simp only [UInt8.toNat_ofNat']
    omega
  have h₁ : ¬ 0xF0 + n / 262144 < 0x80 := by omega
  have h₂ : ¬ (0xC2 ≤ 0xF0 + n / 262144 ∧ 0xF0 + n / 262144 ≤ 0xDF) := by omega
  have h₃ : ¬ 0xF0 + n / 262144 = 0xE0 := by omega
  have h₄ : ¬ 0xF0 + n / 262144 = 0xED := by omega
  have h₅ : ¬ (0xE1 ≤ 0xF0 + n / 262144 ∧ 0xF0 + n / 262144 ≤ 0xEF) := by omega
  simp only [Decoder.first, hb, h₁, h₂, h₃, h₄, h₅, if_false]
  by_cases h0 : n / 262144 = 0
  · exact ⟨0x90, 0xBF, by simp [h0], by omega, by omega⟩
  by_cases h4 : n / 262144 = 4
  · exact ⟨0x80, 0x8F, by simp [h4], by omega, by omega⟩
  have h₆ : ¬ 0xF0 + n / 262144 = 0xF0 := by omega
  have h₇ : 0xF1 ≤ 0xF0 + n / 262144 ∧ 0xF0 + n / 262144 ≤ 0xF3 := by omega
  have hv : 0xF0 + n / 262144 - 0xF0 = n / 262144 := by omega
  refine ⟨0x80, 0xBF, ?_, by omega, by omega⟩
  simp only [h₆, h₇, if_false, if_true, and_self, hv]

theorem run_cons (d : Decoder) (b : UInt8) (bytes : List UInt8) :
    d.run (b :: bytes) = (d.feed b).run bytes := rfl

theorem feed_between (items : List (Option Char)) (b : UInt8) :
    (⟨none, items⟩ : Decoder).feed b = Decoder.first items b := rfl

/-- What a decoder makes of a character, and of a beginning that is not all of it: nothing yet, but
it has counted the bytes. -/
def ReadsAs (bytes : List UInt8) (c : Char) : Prop :=
  ∀ items : List (Option Char), (⟨none, items⟩ : Decoder).run bytes = ⟨none, some c :: items⟩ ∧
    ∀ k, 0 < k → k < bytes.length →
      ∃ o, (⟨none, items⟩ : Decoder).run (bytes.take k) = ⟨some o, items⟩ ∧ o.taken = k

theorem readsAs_one {c : Char} (h : c.toNat < 0x80) : ReadsAs [UInt8.ofNat c.toNat] c := by
  intro items
  have hb : (UInt8.ofNat c.toNat).toNat = c.toNat := by
    simp only [UInt8.toNat_ofNat']
    omega
  refine ⟨?_, fun k hk hk' => ?_⟩
  · simp only [Decoder.run, List.foldl_cons, List.foldl_nil, feed_between, Decoder.first, hb, h,
      if_true, Char.ofNat_toNat]
  · simp only [List.length_singleton] at hk'
    omega

theorem readsAs_two {c : Char} (hl : 0x80 ≤ c.toNat) (hh : c.toNat < 0x800) :
    ReadsAs [UInt8.ofNat (0xC0 + c.toNat / 64), tailByte c.toNat] c := by
  intro items
  have h₁ := first_two items hl hh
  have hc : Char.ofNat (c.toNat / 64 * 64 + c.toNat % 64) = c := ofNat_eq (by omega)
  refine ⟨?_, fun k hk hk' => ?_⟩
  · rw [run_cons, feed_between, h₁, run_cons, feed_last items (by omega) (by omega), hc]
    rfl
  · obtain rfl : k = 1 := by simp only [List.length_cons, List.length_nil] at hk'; omega
    exact ⟨_, h₁, rfl⟩

theorem readsAs_three {c : Char} (hl : 0x800 ≤ c.toNat) (hh : c.toNat < 0x10000) :
    ReadsAs [UInt8.ofNat (0xE0 + c.toNat / 4096), tailByte (c.toNat / 64), tailByte c.toNat] c := by
  intro items
  have hs := toNat_ranges c
  obtain ⟨low, high, h₁, hlow, hhigh⟩ := first_three items hl hh (by omega)
  have h₂ : (⟨some ⟨2, low, high, c.toNat / 4096, 1⟩, items⟩ : Decoder).feed
      (tailByte (c.toNat / 64)) =
      ⟨some ⟨1, 0x80, 0xBF, c.toNat / 4096 * 64 + c.toNat / 64 % 64, 2⟩, items⟩ :=
    feed_more items hlow hhigh
  have hc : Char.ofNat ((c.toNat / 4096 * 64 + c.toNat / 64 % 64) * 64 + c.toNat % 64) = c :=
    ofNat_eq (by omega)
  refine ⟨?_, fun k hk hk' => ?_⟩
  · rw [run_cons, feed_between, h₁, run_cons, h₂, run_cons,
      feed_last items (by omega) (by omega), hc]
    rfl
  · simp only [List.length_cons, List.length_nil] at hk'
    obtain rfl | rfl : k = 1 ∨ k = 2 := by omega
    · exact ⟨_, h₁, rfl⟩
    · have h₁₂ := (congrArg (·.feed (tailByte (c.toNat / 64))) h₁).trans h₂
      exact ⟨_, h₁₂, rfl⟩

theorem readsAs_four {c : Char} (hl : 0x10000 ≤ c.toNat) :
    ReadsAs [UInt8.ofNat (0xF0 + c.toNat / 262144), tailByte (c.toNat / 4096),
      tailByte (c.toNat / 64), tailByte c.toNat] c := by
  intro items
  have hs := toNat_ranges c
  obtain ⟨low, high, h₁, hlow, hhigh⟩ := first_four items hl (by omega)
  have h₂ : (⟨some ⟨3, low, high, c.toNat / 262144, 1⟩, items⟩ : Decoder).feed
      (tailByte (c.toNat / 4096)) =
      ⟨some ⟨2, 0x80, 0xBF, c.toNat / 262144 * 64 + c.toNat / 4096 % 64, 2⟩, items⟩ :=
    feed_more items hlow hhigh
  have h₃ : (⟨some ⟨2, 0x80, 0xBF, c.toNat / 262144 * 64 + c.toNat / 4096 % 64, 2⟩, items⟩ :
      Decoder).feed (tailByte (c.toNat / 64)) =
      ⟨some ⟨1, 0x80, 0xBF, (c.toNat / 262144 * 64 + c.toNat / 4096 % 64) * 64 +
        c.toNat / 64 % 64, 3⟩, items⟩ :=
    feed_more items (by omega) (by omega)
  have hc : Char.ofNat (((c.toNat / 262144 * 64 + c.toNat / 4096 % 64) * 64 +
      c.toNat / 64 % 64) * 64 + c.toNat % 64) = c := ofNat_eq (by omega)
  refine ⟨?_, fun k hk hk' => ?_⟩
  · rw [run_cons, feed_between, h₁, run_cons, h₂, run_cons, h₃, run_cons,
      feed_last items (by omega) (by omega), hc]
    rfl
  · simp only [List.length_cons, List.length_nil] at hk'
    obtain rfl | rfl | rfl : k = 1 ∨ k = 2 ∨ k = 3 := by omega
    · exact ⟨_, h₁, rfl⟩
    · have h₁₂ := (congrArg (·.feed (tailByte (c.toNat / 4096))) h₁).trans h₂
      exact ⟨_, h₁₂, rfl⟩
    · have h₁₂ := (congrArg (·.feed (tailByte (c.toNat / 4096))) h₁).trans h₂
      have h₁₂₃ := (congrArg (·.feed (tailByte (c.toNat / 64))) h₁₂).trans h₃
      exact ⟨_, h₁₂₃, rfl⟩

theorem readsAs_encodeChar (c : Char) : ReadsAs (encodeChar c) c := by
  simp only [encodeChar]
  split
  · exact readsAs_one ‹_›
  split
  · exact readsAs_two (by omega) ‹_›
  split
  · exact readsAs_three (by omega) ‹_›
  · exact readsAs_four (by omega)

theorem length_encodeChar_pos (c : Char) : 0 < (encodeChar c).length := by
  simp only [encodeChar]
  split
  · simp
  split
  · simp
  split <;> simp

theorem run_characters (items : List (Option Char)) (text : List Char) :
    (⟨none, items⟩ : Decoder).run (text.flatMap encodeChar) =
      ⟨none, (text.map some).reverse ++ items⟩ := by
  induction text generalizing items with
  | nil => rfl
  | cons c rest ih =>
    rw [List.flatMap_cons, Decoder.run_append, (readsAs_encodeChar c items).1, ih]
    simp

theorem decodeLossy_characters (text : List Char) :
    decodeLossy (text.flatMap encodeChar) = String.ofList text := by
  have h := run_characters [] text
  have hd : ((fun item : Option Char => item.getD '\uFFFD') ∘ some) = id := rfl
  simp [decodeLossy, Decoder.start, h, Decoder.finish, hd]

@[simp] theorem decodeLossy_encode (text : String) : decodeLossy (encode text) = text := by
  rw [encode, decodeLossy_characters, String.ofList_toList]

@[simp] theorem decode?_encode (text : String) : decode? (encode text) = some text := by
  have hall : text.toList.mapM some = some text.toList := by
    have h := List.mapM_pure (m := Option) (l := text.toList) (f := id)
    rwa [List.map_id] at h
  rw [decode?, encode, Decoder.start, run_characters, Decoder.finish, List.append_nil]
  simp [hall]

/-- A beginning of the bytes of a text: whole characters, then part of the next one. -/
theorem split_beginning {bytes : List UInt8} {text : List Char}
    (h : bytes <+: text.flatMap encodeChar) :
    ∃ before after part, text = before ++ after ∧ bytes = before.flatMap encodeChar ++ part ∧
      (part = [] ∨ ∃ c k, 0 < k ∧ k < (encodeChar c).length ∧ part = (encodeChar c).take k) := by
  induction text generalizing bytes with
  | nil =>
    obtain rfl : bytes = [] := List.prefix_nil.1 h
    exact ⟨[], [], [], rfl, rfl, .inl rfl⟩
  | cons c rest ih =>
    rw [List.flatMap_cons] at h
    rcases Nat.lt_or_ge bytes.length (encodeChar c).length with hk | hk
    · have hb : bytes = (encodeChar c).take bytes.length := by
        have := List.prefix_of_prefix_length_le h (List.prefix_append _ _) (by omega)
        exact List.prefix_iff_eq_take.1 this
      refine ⟨[], c :: rest, bytes, rfl, rfl, ?_⟩
      rcases Nat.eq_zero_or_pos bytes.length with h0 | h0
      · exact .inl (List.length_eq_zero_iff.1 h0)
      · exact .inr ⟨c, bytes.length, h0, hk, hb⟩
    · obtain ⟨more, rfl⟩ : encodeChar c <+: bytes :=
        List.prefix_of_prefix_length_le (List.prefix_append _ _) h (by omega)
      obtain ⟨before, after, part, rfl, rfl, hp⟩ := ih ((List.prefix_append_right_inj _).1 h)
      exact ⟨c :: before, after, part, rfl, by simp, hp⟩

/-- Without its unfinished tail, a beginning of the bytes of a text is the bytes of a beginning of
the text. -/
theorem take_unfinishedTail {bytes : List UInt8} {text : List Char}
    (h : bytes <+: text.flatMap encodeChar) :
    ∃ before after, text = before ++ after ∧
      bytes.take (bytes.length - unfinishedTail bytes) = before.flatMap encodeChar := by
  obtain ⟨before, after, part, rfl, rfl, hp⟩ := split_beginning h
  refine ⟨before, after, rfl, ?_⟩
  suffices unfinishedTail (before.flatMap encodeChar ++ part) = part.length by
    rw [this, List.length_append, Nat.add_sub_cancel]
    exact List.take_left
  have hrun : (Decoder.start.run (before.flatMap encodeChar ++ part)) =
      (⟨none, (before.map some).reverse⟩ : Decoder).run part := by
    have := run_characters [] before
    rw [List.append_nil] at this
    rw [Decoder.run_append, Decoder.start, this]
  simp only [unfinishedTail, hrun]
  rcases hp with rfl | ⟨c, k, hk, hk', rfl⟩
  · rfl
  · obtain ⟨o, ho, htaken⟩ := (readsAs_encodeChar c (before.map some).reverse).2 k hk hk'
    simp [ho, htaken]
    omega

@[simp] theorem unfinishedTail_characters (text : List Char) :
    unfinishedTail (text.flatMap encodeChar) = 0 := by
  simp [unfinishedTail, Decoder.start, run_characters]

end SlimeServer.Utf8
