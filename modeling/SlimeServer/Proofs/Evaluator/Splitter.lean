import SlimeServer.Evaluator.Splitter
import SlimeServer.Proofs.Text.Utf8
/-!
# Finding the token in a stream of pieces

Output that is followed by the token reaches the splitter in pieces that are cut anywhere. What
the splitter has decided and what it holds back are together what it was given. So the texts before
the token are the output, wherever the cuts are, and the last of them comes with the piece that
completes the token.
-/
namespace SlimeServer.Splitter

/-- How often a token occurs in bytes; the empty token occurs nowhere. -/
def occurrences (token : List UInt8) : List UInt8 → Nat
  | [] => 0
  | b :: rest =>
    occurrences token rest + if !token.isEmpty && token.isPrefixOf (b :: rest) then 1 else 0

theorem occurrences_cons {token rest : List UInt8} {b : UInt8} :
    occurrences token rest ≤ occurrences token (b :: rest) := by
  simp only [occurrences]
  omega

theorem occurrences_drop_le (token bytes : List UInt8) (i : Nat) :
    occurrences token (bytes.drop i) ≤ occurrences token bytes := by
  induction bytes generalizing i with
  | nil => simp
  | cons b rest ih =>
    cases i with
    | zero => exact Nat.le_refl _
    | succ i => exact Nat.le_trans (ih i) occurrences_cons

theorem occurrences_of_prefix {token bytes : List UInt8} (ht : token ≠ []) (h : token <+: bytes) :
    occurrences token (bytes.drop 1) + 1 ≤ occurrences token bytes := by
  cases bytes with
  | nil => exact absurd (List.prefix_nil.1 h) ht
  | cons b rest =>
    have hp : token.isPrefixOf (b :: rest) = true := List.isPrefixOf_iff_prefix.2 h
    simp [occurrences, hp, ht]

theorem exists_prefix_of_occurrences {token bytes : List UInt8} (h : occurrences token bytes ≠ 0) :
    token ≠ [] ∧ ∃ i, token <+: bytes.drop i := by
  induction bytes with
  | nil => exact absurd rfl h
  | cons b rest ih =>
    by_cases hrest : occurrences token rest = 0
    · simp only [occurrences, hrest] at h
      split at h
      · rename_i hp
        rw [Bool.and_eq_true] at hp
        exact ⟨by simpa using hp.1, 0, List.isPrefixOf_iff_prefix.1 hp.2⟩
      · exact absurd rfl h
    · obtain ⟨ht, i, hi⟩ := ih hrest
      exact ⟨ht, i + 1, hi⟩

def OnlyAfter (token output trailing : List UInt8) : Prop :=
  token ≠ [] ∧ ∀ i, token <+: (output ++ token ++ trailing).drop i → i = output.length

theorem onlyAfter_of_occurrences {token output trailing : List UInt8}
    (h : occurrences token (output ++ token ++ trailing) = 1) :
    OnlyAfter token output trailing := by
  obtain ⟨ht, -⟩ := exists_prefix_of_occurrences (by rw [h]; decide)
  refine ⟨ht, fun i hi => ?_⟩
  have hself : token <+: (output ++ token ++ trailing).drop output.length := by simp
  -- Of two places where the token starts, the later one counts besides the earlier one.
  have later : ∀ {i j}, token <+: (output ++ token ++ trailing).drop i →
      token <+: (output ++ token ++ trailing).drop j → ¬ i < j := by
    intro i j hi hj hlt
    have h₁ := occurrences_of_prefix ht hi
    have h₂ := occurrences_of_prefix ht hj
    have h₃ := occurrences_drop_le token (output ++ token ++ trailing) i
    have h₄ := occurrences_drop_le token ((output ++ token ++ trailing).drop (i + 1)) (j - (i + 1))
    rw [List.drop_drop, show i + 1 + (j - (i + 1)) = j by omega] at h₄
    rw [List.drop_drop] at h₁
    omega
  have h₁ := later hi hself
  have h₂ := later hself hi
  omega

/-- A token that starts with a byte it has nowhere else cannot overlap itself, so output without the
token does not form another one with it. -/
theorem onlyAfter_of_head {b : UInt8} {rest output : List UInt8} (hb : b ∉ rest)
    (h : occurrences (b :: rest) output = 0) : OnlyAfter (b :: rest) output [] := by
  refine ⟨List.cons_ne_nil _ _, fun i hi => ?_⟩
  rw [List.append_nil] at hi
  have hle := hi.length_le
  rw [List.length_drop, List.length_append, List.length_cons] at hle
  by_cases hlt : i < output.length
  · exfalso
    rw [List.drop_append_of_le_length (by omega)] at hi
    rcases Nat.lt_or_ge (output.drop i).length (b :: rest).length with hshort | hlong
    · -- The token would start inside the output and end inside the token after it.
      obtain ⟨more, hmore⟩ : output.drop i <+: b :: rest :=
        List.prefix_of_prefix_length_le (List.prefix_append _ _) hi (by omega)
      have hagain : more <+: b :: rest := by
        rw [← hmore, List.prefix_append_right_inj, hmore] at hi
        exact hi
      rw [← hmore, List.length_append] at hshort
      cases more with
      | nil => simp at hshort
      | cons c more =>
        obtain rfl : c = b := by
          have := List.cons_prefix_cons.1 hagain
          exact this.1
        cases hbegun : output.drop i with
        | nil =>
          have := congrArg List.length hbegun
          rw [List.length_drop, List.length_nil] at this
          omega
        | cons a begun =>
          rw [hbegun, List.cons_append, List.cons.injEq] at hmore
          exact hb (hmore.2 ▸ by simp)
    · have hinside : b :: rest <+: output.drop i :=
        List.prefix_of_prefix_length_le hi (List.prefix_append _ _) hlong
      have h₁ := occurrences_of_prefix (List.cons_ne_nil _ _) hinside
      have h₂ := occurrences_drop_le (b :: rest) output i
      omega
  · omega

theorem OnlyAfter.occurrences_ne_zero {token output bytes : List UInt8}
    (h : OnlyAfter token output []) (hbytes : bytes = output ++ token) :
    occurrences token bytes ≠ 0 := by
  have hself : token <+: bytes.drop output.length :=
    ⟨[], by rw [List.append_nil, hbytes, List.drop_left]⟩
  have h₁ := occurrences_of_prefix h.1 hself
  have h₂ := occurrences_drop_le token bytes output.length
  omega

theorem OnlyAfter.drop {token before after trailing : List UInt8}
    (h : OnlyAfter token (before ++ after) trailing) : OnlyAfter token after trailing := by
  refine ⟨h.1, fun i hi => ?_⟩
  have hshift : token <+: (before ++ after ++ token ++ trailing).drop (before.length + i) := by
    rw [← List.drop_drop, List.append_assoc, List.append_assoc, List.drop_left,
      ← List.append_assoc]
    exact hi
  have := h.2 _ hshift
  rw [List.length_append] at this
  omega

theorem prefix_of_lastIndex? {token bytes : List UInt8} {i : Nat}
    (h : lastIndex? token bytes = some i) : token <+: bytes.drop i := by
  induction bytes generalizing i with
  | nil => cases h
  | cons b rest ih =>
    simp only [lastIndex?] at h
    split at h
    · rename_i j hj
      cases h
      exact ih hj
    · split at h
      · rename_i hp
        cases h
        rw [Bool.and_eq_true] at hp
        exact List.isPrefixOf_iff_prefix.1 hp.2
      · cases h

theorem lastIndex?_ne_none {token bytes : List UInt8} {i : Nat} (ht : token ≠ [])
    (h : token <+: bytes.drop i) : lastIndex? token bytes ≠ none := by
  induction bytes generalizing i with
  | nil =>
    rw [List.drop_nil] at h
    exact absurd (List.prefix_nil.1 h) ht
  | cons b rest ih =>
    simp only [lastIndex?]
    split
    · simp
    · rename_i hn
      cases i with
      | zero =>
        have hp : token.isPrefixOf (b :: rest) = true := List.isPrefixOf_iff_prefix.2 h
        simp [hp, ht]
      | succ i => exact absurd hn (ih h)

/-- Before all of the token has come it is not found. -/
theorem OnlyAfter.lastIndex?_eq_none {token output trailing bytes : List UInt8}
    (h : OnlyAfter token output trailing) (hb : bytes <+: output ++ token ++ trailing)
    (hlen : bytes.length < output.length + token.length) : lastIndex? token bytes = none := by
  cases hi : lastIndex? token bytes with
  | none => rfl
  | some i =>
    obtain ⟨more, hmore⟩ := hb
    have hp := prefix_of_lastIndex? hi
    have hle := hp.length_le
    have ht := List.length_pos_iff.2 h.1
    rw [List.length_drop] at hle
    have hwhole : token <+: (output ++ token ++ trailing).drop i := by
      rw [← hmore, List.drop_append_of_le_length (by omega)]
      exact hp.trans (List.prefix_append _ _)
    have := h.2 i hwhole
    omega

/-- Once all of the token has come it is found behind the output. -/
theorem OnlyAfter.lastIndex?_eq_some {token output trailing rest : List UInt8}
    (h : OnlyAfter token output trailing) (hr : rest <+: trailing) :
    lastIndex? token (output ++ token ++ rest) = some output.length := by
  have hself : token <+: (output ++ token ++ rest).drop output.length := by simp
  cases hi : lastIndex? token (output ++ token ++ rest) with
  | none => exact absurd hi (lastIndex?_ne_none h.1 hself)
  | some i =>
    obtain ⟨more, rfl⟩ := hr
    have hp := prefix_of_lastIndex? hi
    have hle := hp.length_le
    have ht := List.length_pos_iff.2 h.1
    rw [List.length_drop] at hle
    have hwhole : token <+: (output ++ token ++ (rest ++ more)).drop i := by
      rw [← List.append_assoc, List.drop_append_of_le_length (by omega)]
      exact hp.trans (List.prefix_append _ _)
    rw [h.2 i hwhole]

section

variable {token bytes : List UInt8}

theorem find?_reverse_range {p : Nat → Bool} {count n : Nat} (hn : n < count) (hp : p n = true) :
    ∃ m, (List.range count).reverse.find? p = some m ∧ n ≤ m := by
  induction count with
  | zero => omega
  | succ count ih =>
    rw [List.range_succ, List.reverse_append, List.reverse_singleton, List.singleton_append,
      List.find?_cons]
    cases hc : p count with
    | true => exact ⟨count, rfl, by omega⟩
    | false =>
      have hne : n ≠ count := by
        rintro rfl
        rw [hp] at hc
        cases hc
      exact ih (by omega)

theorem le_partialLength {n : Nat} (hn : n < token.length) (h : token.take n <:+ bytes) :
    n ≤ partialLength token bytes := by
  have hp : (token.take n).isSuffixOf bytes = true := List.isSuffixOf_iff_suffix.2 h
  obtain ⟨m, hm, hle⟩ :=
    find?_reverse_range (p := fun n => (token.take n).isSuffixOf bytes) hn hp
  rw [partialLength, hm]
  exact hle

theorem partialLength_suffix : token.take (partialLength token bytes) <:+ bytes := by
  rw [partialLength]
  cases h : (List.range token.length).reverse.find? fun n => (token.take n).isSuffixOf bytes with
  | none => simp
  | some n =>
    have hp := List.find?_some h
    exact List.isSuffixOf_iff_suffix.1 hp

theorem partialLength_lt (ht : token ≠ []) : partialLength token bytes < token.length := by
  rw [partialLength]
  cases h : (List.range token.length).reverse.find? fun n => (token.take n).isSuffixOf bytes with
  | none => exact List.length_pos_iff.2 ht
  | some n =>
    have := List.mem_of_find?_eq_some h
    simpa using this

end

theorem take_decided (token bytes : List UInt8) :
    bytes.take (decided token bytes) =
      (bytes.take (bytes.length - partialLength token bytes)).take
        ((bytes.take (bytes.length - partialLength token bytes)).length -
          Utf8.unfinishedTail (bytes.take (bytes.length - partialLength token bytes))) := by
  rw [List.take_take, List.length_take]
  congr 1
  simp only [decided]
  omega

/-- What is surely not the beginning of the token lies within the output. -/
theorem take_sure_within {token output trailing bytes : List UInt8}
    (hb : bytes <+: output ++ token ++ trailing)
    (hlen : bytes.length < output.length + token.length) :
    bytes.take (bytes.length - partialLength token bytes) <+: output := by
  rw [List.append_assoc] at hb
  have htake := List.take_prefix (bytes.length - partialLength token bytes) bytes
  refine List.prefix_of_prefix_length_le (htake.trans hb) (List.prefix_append _ _) ?_
  rw [List.length_take]
  rcases Nat.lt_or_ge output.length bytes.length with hk | hk
  · -- All of the output has come, so the bytes after it begin the token.
    obtain ⟨begun, rfl⟩ : output <+: bytes :=
      List.prefix_of_prefix_length_le (List.prefix_append _ _) hb (by omega)
    rw [List.length_append] at hlen hk ⊢
    have hbegun : begun <+: token :=
      List.prefix_of_prefix_length_le ((List.prefix_append_right_inj _).1 hb)
        (List.prefix_append _ _) (by omega)
    have hends : token.take begun.length <:+ output ++ begun := by
      rw [← List.prefix_iff_eq_take.1 hbegun]
      exact List.suffix_append _ _
    have := le_partialLength (by omega) hends
    omega
  · omega

section

open Utf8 (encodeChar)

variable {s : Splitter} {piece trailing : List UInt8} {output : List Char}

theorem push_within (hnone : lastIndex? s.token (s.held ++ piece) = none)
    (hsure : (s.held ++ piece).take ((s.held ++ piece).length -
      partialLength s.token (s.held ++ piece)) <+: output.flatMap encodeChar) :
    ∃ before after, output = before ++ after ∧
      (s.push piece).1 = ⟨String.ofList before, false⟩ ∧
      before.flatMap encodeChar ++ (s.push piece).2.held = s.held ++ piece := by
  obtain ⟨before, after, rfl, htake⟩ := Utf8.take_unfinishedTail hsure
  refine ⟨before, after, rfl, ?_⟩
  have hdecided : (s.held ++ piece).take (decided s.token (s.held ++ piece)) =
      before.flatMap encodeChar := by rw [take_decided, htake]
  simp only [push, hnone, hdecided, Utf8.decodeLossy_characters, true_and]
  rw [← hdecided, List.take_append_drop]

theorem push_before_token (ho : OnlyAfter s.token (output.flatMap encodeChar) trailing)
    (hb : s.held ++ piece <+: output.flatMap encodeChar ++ s.token ++ trailing)
    (hlen : (s.held ++ piece).length < (output.flatMap encodeChar).length + s.token.length) :
    ∃ before after, output = before ++ after ∧
      (s.push piece).1 = ⟨String.ofList before, false⟩ ∧
      before.flatMap encodeChar ++ (s.push piece).2.held = s.held ++ piece :=
  push_within (ho.lastIndex?_eq_none hb hlen) (take_sure_within hb hlen)

/-- The piece that completes the token brings the rest of the output. -/
theorem push_token_complete (ho : OnlyAfter s.token (output.flatMap encodeChar) trailing)
    (hb : s.held ++ piece <+: output.flatMap encodeChar ++ s.token ++ trailing)
    (hlen : (output.flatMap encodeChar).length + s.token.length ≤ (s.held ++ piece).length) :
    s.push piece = (⟨String.ofList output, true⟩, { s with held := [] }) := by
  obtain ⟨rest, hrest⟩ : output.flatMap encodeChar ++ s.token <+: s.held ++ piece :=
    List.prefix_of_prefix_length_le (List.prefix_append _ _) hb
      (by rw [List.length_append]; exact hlen)
  rw [← hrest] at hb
  have hsome := ho.lastIndex?_eq_some ((List.prefix_append_right_inj _).1 hb)
  rw [hrest] at hsome
  have htake : (s.held ++ piece).take (output.flatMap encodeChar).length =
      output.flatMap encodeChar := by
    rw [← hrest, List.append_assoc, List.take_left]
  simp only [push, hsome, htake, Utf8.decodeLossy_characters]

end

/-- What several pieces bring, one after the other, and the splitter after them. -/
def pushAll (s : Splitter) : List (List UInt8) → List Split × Splitter
  | [] => ([], s)
  | piece :: rest =>
    let (splits, last) := (s.push piece).2.pushAll rest
    ((s.push piece).1 :: splits, last)

@[simp] theorem pushAll_token (s : Splitter) (pieces : List (List UInt8)) :
    (s.pushAll pieces).2.token = s.token := by
  induction pieces generalizing s with
  | nil => rfl
  | cons piece rest ih => exact (ih _).trans (s.push_token piece)

theorem pushAll_append (s : Splitter) (first more : List (List UInt8)) :
    s.pushAll (first ++ more) =
      ((s.pushAll first).1 ++ ((s.pushAll first).2.pushAll more).1,
        ((s.pushAll first).2.pushAll more).2) := by
  induction first generalizing s with
  | nil => rfl
  | cons piece rest ih => simp [pushAll, ih]

def textOf (splits : List Split) : List Char := splits.flatMap fun split => split.text.toList

section

open Utf8 (encodeChar)

variable {trailing : List UInt8}

/-- Pieces that do not complete the token: their texts are a beginning of the output, and with
what is held back they are what has come. -/
theorem pushAll_before_token {s : Splitter} {pieces : List (List UInt8)} {output : List Char}
    (ho : OnlyAfter s.token (output.flatMap encodeChar) trailing)
    (hb : s.held ++ pieces.flatten <+: output.flatMap encodeChar ++ s.token ++ trailing)
    (hlen : (s.held ++ pieces.flatten).length <
      (output.flatMap encodeChar).length + s.token.length) :
    ∃ after, output = textOf (s.pushAll pieces).1 ++ after ∧
      (∀ split ∈ (s.pushAll pieces).1, split.found = false) ∧
      (textOf (s.pushAll pieces).1).flatMap encodeChar ++ (s.pushAll pieces).2.held =
        s.held ++ pieces.flatten := by
  induction pieces generalizing s output with
  | nil => exact ⟨output, rfl, by simp [pushAll], by simp [pushAll, textOf]⟩
  | cons piece rest ih =>
    rw [List.flatten_cons, ← List.append_assoc] at hb hlen
    have hlen₁ : (s.held ++ piece).length <
        (output.flatMap encodeChar).length + s.token.length := by
      rw [List.length_append] at hlen
      omega
    -- What the first piece decides is cut off the output; for what is left, the pieces that follow
    -- are in the same position.
    obtain ⟨before, after, rfl, hsplit, hheld⟩ :=
      push_before_token ho ((List.prefix_append _ _).trans hb) hlen₁
    rw [List.flatMap_append] at ho hb hlen
    rw [← hheld] at hb hlen
    rw [List.append_assoc, List.append_assoc, List.append_assoc, List.prefix_append_right_inj,
      ← List.append_assoc _ s.token] at hb
    simp only [List.length_append] at hlen
    have ho' : OnlyAfter (s.push piece).2.token (after.flatMap encodeChar) trailing := by
      rw [push_token]
      exact ho.drop
    obtain ⟨left, hleft, hfound, hall⟩ := ih ho' (by rw [push_token]; exact hb)
      (by rw [push_token, List.length_append]; omega)
    have htext : textOf (s.pushAll (piece :: rest)).1 =
        before ++ textOf ((s.push piece).2.pushAll rest).1 := by
      simp [pushAll, textOf, hsplit]
    refine ⟨left, ?_, ?_, ?_⟩
    · rw [htext, List.append_assoc, ← hleft]
    · intro split hmem
      simp only [pushAll, List.mem_cons] at hmem
      rcases hmem with rfl | hmem
      · rw [hsplit]
      · exact hfound split hmem
    · rw [htext, List.flatMap_append, List.flatten_cons, ← List.append_assoc s.held, ← hheld,
        List.append_assoc, List.append_assoc]
      exact congrArg _ hall

/-- The piece with which a count of bytes is reached. -/
theorem exists_completing {pieces : List (List UInt8)} {count : Nat} (h0 : 0 < count)
    (h : count ≤ pieces.flatten.length) :
    ∃ first last extra, pieces = first ++ last :: extra ∧ first.flatten.length < count ∧
      count ≤ first.flatten.length + last.length := by
  induction pieces generalizing count with
  | nil =>
    rw [List.flatten_nil, List.length_nil] at h
    omega
  | cons piece rest ih =>
    rw [List.flatten_cons, List.length_append] at h
    rcases Nat.lt_or_ge piece.length count with hk | hk
    · obtain ⟨first, last, extra, rfl, hlt, hle⟩ :=
        ih (by omega : 0 < count - piece.length) (by omega)
      refine ⟨piece :: first, last, extra, rfl, ?_, ?_⟩
      · rw [List.flatten_cons, List.length_append]
        omega
      · rw [List.flatten_cons, List.length_append]
        omega
    · exact ⟨[], piece, rest, rfl, h0, by simpa using hk⟩

/-- However output and token are cut into pieces, the texts up to the one that comes with the token
are the output. -/
theorem pushAll_output {s : Splitter} {pieces first extra : List (List UInt8)} {last : List UInt8}
    {output : List Char} (hs : s.held = [])
    (ho : OnlyAfter s.token (output.flatMap encodeChar) trailing)
    (hcut : pieces.flatten = output.flatMap encodeChar ++ s.token ++ trailing)
    (hp : pieces = first ++ last :: extra)
    (hlt : first.flatten.length < (output.flatMap encodeChar).length + s.token.length)
    (hle : (output.flatMap encodeChar).length + s.token.length ≤
      first.flatten.length + last.length) :
    ∃ after, output = textOf (s.pushAll first).1 ++ after ∧
      (∀ split ∈ (s.pushAll first).1, split.found = false) ∧
      (textOf (s.pushAll first).1).flatMap encodeChar ++ (s.pushAll first).2.held =
        first.flatten ∧
      ((s.pushAll first).2.push last).1 = ⟨String.ofList after, true⟩ := by
  have hwhole : first.flatten ++ last <+: output.flatMap encodeChar ++ s.token ++ trailing := by
    rw [← hcut, hp]
    simp
  have hfirst : s.held ++ first.flatten <+: output.flatMap encodeChar ++ s.token ++ trailing := by
    rw [hs]
    exact (List.prefix_append _ _).trans hwhole
  obtain ⟨after, hafter, hfound, hall⟩ := pushAll_before_token ho hfirst (by rw [hs]; exact hlt)
  rw [hs, List.nil_append] at hall
  refine ⟨after, hafter, hfound, hall, ?_⟩
  rw [hafter, List.flatMap_append] at ho hwhole hle
  rw [← hall, List.append_assoc, List.append_assoc, List.append_assoc,
    List.prefix_append_right_inj, ← List.append_assoc _ s.token] at hwhole
  rw [← hall] at hle
  simp only [List.length_append] at hle
  have ho' : OnlyAfter (s.pushAll first).2.token (after.flatMap encodeChar) trailing := by
    rw [pushAll_token]
    exact ho.drop
  rw [push_token_complete ho' (by rw [pushAll_token]; exact hwhole)
    (by rw [pushAll_token, List.length_append]; omega)]

/-- Output and token in pieces of which the last one completes the token. -/
theorem pushAll_output_last {token last : List UInt8} {first : List (List UInt8)}
    {output : List Char} (ho : OnlyAfter token (output.flatMap encodeChar) [])
    (hcut : first.flatten ++ last = output.flatMap encodeChar ++ token) (hlast : last ≠ []) :
    (∀ split ∈ ((start token).pushAll first).1, split.found = false) ∧
      (((start token).pushAll first).2.push last).1.found = true ∧
      textOf ((start token).pushAll (first ++ [last])).1 = output := by
  have hpos := List.length_pos_iff.2 hlast
  have hlength := congrArg List.length hcut
  simp only [List.length_append] at hlength
  have hwhole : (first ++ [last]).flatten = output.flatMap encodeChar ++ token ++ [] := by
    rw [List.flatten_append, List.flatten_singleton, hcut, List.append_nil]
  obtain ⟨after, hafter, hfound, -, hpush⟩ := pushAll_output (s := start token) rfl ho hwhole rfl
    (by simp only [start]; omega) (by simp only [start]; omega)
  refine ⟨hfound, by rw [hpush], ?_⟩
  rw [pushAll_append, hafter]
  simp [pushAll, textOf, hpush]

/-- Where no beginning of the token that ends the bytes, the empty one among them, reaches back into
the output, the piece brings all of it. -/
theorem push_whole_output {s : Splitter} {piece : List UInt8} {output : List Char}
    (ho : OnlyAfter s.token (output.flatMap encodeChar) trailing)
    (hb : s.held ++ piece <+: output.flatMap encodeChar ++ s.token ++ trailing)
    (hlen : (s.held ++ piece).length < (output.flatMap encodeChar).length + s.token.length)
    (hends : ∀ n < s.token.length, s.token.take n <:+ s.held ++ piece →
      (output.flatMap encodeChar).length + n ≤ (s.held ++ piece).length) :
    (s.push piece).1 = ⟨String.ofList output, false⟩ := by
  have hnone := ho.lastIndex?_eq_none hb hlen
  have hreach := hends _ (partialLength_lt ho.1) partialLength_suffix
  have hsure : (s.held ++ piece).take ((s.held ++ piece).length -
      partialLength s.token (s.held ++ piece)) = output.flatMap encodeChar := by
    apply (take_sure_within hb hlen).eq_of_length_le
    rw [List.length_take]
    omega
  have hdecided : decided s.token (s.held ++ piece) = (s.held ++ piece).length -
      partialLength s.token (s.held ++ piece) := by
    simp only [decided, hsure, Utf8.unfinishedTail_characters, Nat.sub_zero]
  simp only [push, hnone, hdecided, hsure, Utf8.decodeLossy_characters]

theorem pushAll_whole_output {s : Splitter} {pieces : List (List UInt8)} {output : List Char}
    (hne : pieces ≠ []) (ho : OnlyAfter s.token (output.flatMap encodeChar) trailing)
    (hb : s.held ++ pieces.flatten <+: output.flatMap encodeChar ++ s.token ++ trailing)
    (hlen : (s.held ++ pieces.flatten).length <
      (output.flatMap encodeChar).length + s.token.length)
    (hends : ∀ n < s.token.length, s.token.take n <:+ s.held ++ pieces.flatten →
      (output.flatMap encodeChar).length + n ≤ (s.held ++ pieces.flatten).length) :
    textOf (s.pushAll pieces).1 = output := by
  induction pieces generalizing s output with
  | nil => exact absurd rfl hne
  | cons piece rest ih =>
    cases rest with
    | nil =>
      rw [List.flatten_singleton] at hb hlen hends
      have hpush := push_whole_output ho hb hlen hends
      simp [pushAll, textOf, hpush]
    | cons next rest =>
      rw [List.flatten_cons, ← List.append_assoc] at hb hlen hends
      have hlen₁ : (s.held ++ piece).length <
          (output.flatMap encodeChar).length + s.token.length := by
        rw [List.length_append] at hlen
        omega
      -- What the first piece decides is cut off the output; for what is left, the pieces that follow
      -- are in the same position.
      obtain ⟨before, after, rfl, hsplit, hheld⟩ :=
        push_before_token ho ((List.prefix_append _ _).trans hb) hlen₁
      rw [List.flatMap_append] at ho hb hlen hends
      rw [← hheld, List.append_assoc] at hb hlen hends
      rw [List.append_assoc, List.append_assoc, List.prefix_append_right_inj,
        ← List.append_assoc _ s.token] at hb
      have hrest := ih (s := (s.push piece).2) (by simp) (by rw [push_token]; exact ho.drop)
        (by rw [push_token]; exact hb)
        (by rw [push_token]; simp only [List.length_append] at hlen ⊢; omega)
        (by
          intro n hn hsuffix
          rw [push_token] at hn hsuffix
          have := hends n hn (hsuffix.trans (List.suffix_append _ _))
          simp only [List.length_append] at this ⊢
          omega)
      rw [← hrest]
      simp [pushAll, textOf, hsplit]

/-- A beginning of the token that ends what has come is held back. -/
theorem le_length_held_push {s : Splitter} {piece : List UInt8} {n : Nat}
    (hfound : (s.push piece).1.found = false) (hn : n < s.token.length)
    (h : s.token.take n <:+ s.held ++ piece) : n ≤ (s.push piece).2.held.length := by
  have hpartial := le_partialLength hn h
  have ht : s.token ≠ [] := by
    intro h0
    rw [h0] at hn
    simp at hn
  have hlt : partialLength s.token (s.held ++ piece) < s.token.length := partialLength_lt ht
  have hends : s.token.take (partialLength s.token (s.held ++ piece)) <:+ s.held ++ piece :=
    partialLength_suffix
  have hle := hends.length_le
  rw [List.length_take] at hle
  simp only [push] at hfound ⊢
  split at hfound
  · cases hfound
  · rename_i hnone
    simp only [List.length_drop, decided]
    omega

theorem held_push_suffix {s : Splitter} {piece : List UInt8} :
    (s.push piece).2.held <:+ s.held ++ piece := by
  simp only [push]
  split
  · exact List.nil_suffix
  · exact List.drop_suffix _ _

/-- What is held back ends what has been seen, and no beginning of the token that ends it is
longer. -/
structure Holds (s : Splitter) (seen : List UInt8) : Prop where
  suffix : s.held <:+ seen
  begins : ∀ n < s.token.length, s.token.take n <:+ seen → n ≤ s.held.length

theorem holds_nil {s : Splitter} (h : s.held = []) : s.Holds [] := by
  refine ⟨h ▸ List.nil_suffix, fun n hn hends => ?_⟩
  have := hends.length_le
  rw [List.length_take, List.length_nil] at this
  omega

theorem Holds.push {s : Splitter} {piece seen : List UInt8} (h : s.Holds seen)
    (hfound : (s.push piece).1.found = false) : (s.push piece).2.Holds (seen ++ piece) := by
  have hbytes : s.held ++ piece <:+ seen ++ piece := by
    obtain ⟨before, hbefore⟩ := h.suffix
    exact ⟨before, by rw [← hbefore, List.append_assoc]⟩
  refine ⟨held_push_suffix.trans hbytes, fun n hn hends => ?_⟩
  rw [push_token] at hn hends
  rcases Nat.lt_or_ge (s.held ++ piece).length n with hlong | hshort
  · -- Such a beginning would have reached beyond what was held before the piece.
    have hpiece : piece <:+ s.token.take n := by
      refine List.suffix_of_suffix_length_le (List.suffix_append seen piece) hends ?_
      rw [List.length_take, List.length_append] at *
      omega
    obtain ⟨begun, hbegun⟩ := hpiece
    have hlength : begun.length + piece.length = n := by
      rw [← List.length_append, hbegun, List.length_take]
      omega
    have hbegin : begun = s.token.take (n - piece.length) := by
      have := congrArg (List.take begun.length) hbegun
      rw [List.take_left, List.take_take] at this
      rw [this]
      congr 1
      omega
    have hseen : begun <:+ seen := by
      obtain ⟨before, hbefore⟩ := hends
      rw [← hbegun, ← List.append_assoc] at hbefore
      exact ⟨before, (List.append_left_inj _).1 hbefore⟩
    have := h.begins (n - piece.length) (by omega) (hbegin ▸ hseen)
    rw [List.length_append] at hlong
    omega
  · apply le_length_held_push hfound hn
    refine List.suffix_of_suffix_length_le hends hbytes ?_
    rw [List.length_take]
    omega

theorem Holds.pushAll {s : Splitter} {pieces : List (List UInt8)} {seen : List UInt8}
    (h : s.Holds seen) (hfound : ∀ split ∈ (s.pushAll pieces).1, split.found = false) :
    (s.pushAll pieces).2.Holds (seen ++ pieces.flatten) := by
  induction pieces generalizing s seen with
  | nil => simpa [Splitter.pushAll] using h
  | cons piece rest ih =>
    have hfound₁ : (s.push piece).1.found = false := hfound _ (List.mem_cons_self ..)
    rw [List.flatten_cons, ← List.append_assoc]
    exact ih (h.push hfound₁) fun split hsplit => hfound split (List.mem_cons_of_mem _ hsplit)

/-- The pieces before the token is complete bring all of the output exactly where no beginning of
the token that ends them, the empty one among them, reaches back into it. -/
theorem textOf_pushAll_eq_iff {s : Splitter} {pieces : List (List UInt8)} {output : List Char}
    (hs : s.held = []) (ho : OnlyAfter s.token (output.flatMap encodeChar) trailing)
    (hb : pieces.flatten <+: output.flatMap encodeChar ++ s.token ++ trailing)
    (hlen : pieces.flatten.length < (output.flatMap encodeChar).length + s.token.length) :
    textOf (s.pushAll pieces).1 = output ↔
      ∀ n < s.token.length, s.token.take n <:+ pieces.flatten →
        (output.flatMap encodeChar).length + n ≤ pieces.flatten.length := by
  have hb' : s.held ++ pieces.flatten <+: output.flatMap encodeChar ++ s.token ++ trailing := by
    rw [hs]
    exact hb
  have hlen' : (s.held ++ pieces.flatten).length <
      (output.flatMap encodeChar).length + s.token.length := by
    rw [hs]
    exact hlen
  constructor
  · intro h n hn hsuffix
    obtain ⟨after, -, hfound, hall⟩ := pushAll_before_token ho hb' hlen'
    rw [h, hs, List.nil_append] at hall
    have hholds := (holds_nil hs).pushAll hfound
    have hheld := hholds.begins n (by rw [pushAll_token]; exact hn)
      (by rw [pushAll_token]; exact hsuffix)
    rw [← hall, List.length_append]
    omega
  · intro hends
    by_cases hne : pieces = []
    · subst hne
      have hzero := hends 0 (List.length_pos_iff.2 ho.1) List.nil_suffix
      cases output with
      | nil => rfl
      | cons c rest =>
        have := Utf8.length_encodeChar_pos c
        simp only [List.flatMap_cons, List.length_append, List.flatten_nil, List.length_nil]
          at hzero
        omega
    · apply pushAll_whole_output hne ho hb' hlen'
      rw [hs]
      exact hends

end

end SlimeServer.Splitter
