import SlimeServer.Proofs.Evaluator.Decoding
import SlimeServer.Proofs.Text.Unfinished
/-!
# What is held back

Whatever bytes come, a push that does not find the token holds back no more than could still become
something else: the longest beginning of the token that ends the bytes, and before it what has come
of one character. All bytes before these are decoded into its text. So what is held back is at most
two bytes longer than the token.
-/
namespace SlimeServer.Splitter

structure LongestEnding (token bytes begun : List UInt8) : Prop where
  begins : begun <+: token
  proper : begun ≠ token
  ends : begun <:+ bytes
  longest : ∀ other, other <+: token → other ≠ token → other <:+ bytes →
    other.length ≤ begun.length

/-- The bytes held back of those pending: a beginning of the token, and before it what has come of
one character, if anything. -/
def HeldBack (token pending held : List UInt8) : Prop :=
  ∃ part begun, held = part ++ begun ∧ LongestEnding token pending begun ∧
    (part = [] ∨ Utf8.Unfinished part ∧ part.length ≤ 3)

section

variable {s : Splitter} {piece token bytes held : List UInt8} {pieces : List (List UInt8)}

theorem length_take_partial (ht : token ≠ []) (bytes : List UInt8) :
    (token.take (partialLength token bytes)).length = partialLength token bytes := by
  have hlt : partialLength token bytes < token.length := partialLength_lt ht
  rw [List.length_take]
  omega

theorem longestEnding_partial (ht : token ≠ []) :
    LongestEnding token bytes (token.take (partialLength token bytes)) where
  begins := List.take_prefix _ _
  proper := by
    intro heq
    have hlt : partialLength token bytes < token.length := partialLength_lt ht
    rw [← length_take_partial ht, heq] at hlt
    exact lt_irrefl _ hlt
  ends := partialLength_suffix
  longest := by
    intro other hbegins hproper hends
    have hlt : other.length < token.length :=
      Nat.lt_of_le_of_ne hbegins.length_le fun heq => hproper (hbegins.eq_of_length heq)
    have htake : other = token.take other.length := List.prefix_iff_eq_take.1 hbegins
    rw [length_take_partial ht]
    exact le_partialLength hlt (htake ▸ hends)

/-- What is not decided ends in the beginning of the token, before which there may stand part of a
character. -/
theorem heldBack_drop_decided (ht : token ≠ []) (bytes : List UInt8) :
    HeldBack token bytes (bytes.drop (decided token bytes)) := by
  obtain ⟨sure, hsure⟩ : token.take (partialLength token bytes) <:+ bytes := partialLength_suffix
  have hcut : bytes.length - partialLength token bytes = sure.length := by
    have htotal := congrArg List.length hsure
    rw [List.length_append, length_take_partial ht] at htotal
    omega
  have htake : bytes.take sure.length = sure := by
    rw [← hsure, List.take_left]
  by_cases htail : Utf8.unfinishedTail sure = 0
  · refine ⟨[], _, ?_, longestEnding_partial ht, .inl rfl⟩
    rw [decided, hcut, htake, htail, Nat.sub_zero]
    conv => lhs; rw [← hsure, List.drop_left]
    rfl
  · obtain ⟨text, part, hsplit, hpart, hunfinished⟩ := Utf8.exists_unfinished htail
    refine ⟨part, _, ?_, longestEnding_partial ht, .inr ⟨hunfinished, hunfinished.length_le⟩⟩
    have htext : sure.length - Utf8.unfinishedTail sure = (text.flatMap Utf8.encodeChar).length := by
      rw [← hpart, hsplit, List.length_append, Nat.add_sub_cancel]
    rw [decided, hcut, htake, htext]
    conv => lhs; rw [← hsure, hsplit, List.append_assoc, List.drop_left]

theorem heldBack_push (ht : s.token ≠ []) (h : (s.push piece).1.found = false) :
    HeldBack s.token (s.held ++ piece) (s.push piece).2.held := by
  have hnone := lastIndex?_of_not_found h
  have hheld : (s.push piece).2.held =
      (s.held ++ piece).drop (decided s.token (s.held ++ piece)) := by
    simp only [push, hnone]
  rw [hheld]
  exact heldBack_drop_decided ht _

theorem HeldBack.length_le (h : HeldBack token bytes held) : held.length ≤ token.length + 2 := by
  obtain ⟨part, begun, rfl, hbegun, hpart⟩ := h
  have hlt : begun.length < token.length :=
    Nat.lt_of_le_of_ne hbegun.begins.length_le fun heq =>
      hbegun.proper (hbegun.begins.eq_of_length heq)
  have hthree : part.length ≤ 3 := by
    rcases hpart with rfl | ⟨-, hle⟩
    · simp
    · exact hle
  rw [List.length_append]
  omega

theorem not_infix_held_push (ht : s.token ≠ []) : ¬ s.token <:+: (s.push piece).2.held := by
  intro hin
  cases hfound : (s.push piece).1.found with
  | true =>
    rw [held_of_found hfound] at hin
    exact ht (List.infix_nil.1 hin)
  | false =>
    obtain ⟨i, hi⟩ := infix_iff_drop.1 (hin.trans held_push_suffix.isInfix)
    exact lastIndex?_ne_none ht hi (lastIndex?_of_not_found hfound)

theorem flatten_segments_append_held
    (h : ∀ split ∈ (s.pushAll pieces).1, split.found = false) :
    (s.segments pieces).flatten ++ (s.pushAll pieces).2.held = s.held ++ pieces.flatten := by
  induction pieces generalizing s with
  | nil => simp [segments, pushAll]
  | cons piece rest ih =>
    have hfound : (s.push piece).1.found = false := h _ (List.mem_cons_self ..)
    have hrest := ih fun split hsplit => h split (List.mem_cons_of_mem _ hsplit)
    rw [segments, hfound, List.flatten_cons, List.flatten_cons, List.append_assoc,
      ← List.append_assoc s.held, ← decidedBytes_append_held hfound, List.append_assoc]
    exact congrArg _ hrest

/-- After any pieces, the next push holds nothing back where it finds the token. Where it does not,
it holds back the longest beginning of the token that ends the bytes pending in it, and before that
what has come of one character, if anything; all bytes before these are decoded into its text. What
is held back never contains the token, nor is it more than two bytes longer. As long as the token is
not found, all bytes that have come and are not held back have been decoded. -/
theorem held_after_push (ht : token ≠ []) (pieces : List (List UInt8)) (piece : List UInt8) :
    let s := ((start token).pushAll pieces).2
    let split := (s.push piece).1
    let held := (s.push piece).2.held
    (split.found = true → held = []) ∧
      (split.found = false → HeldBack token (s.held ++ piece) held ∧
        s.decidedBytes piece ++ held = s.held ++ piece ∧
        split.text = Utf8.decodeLossy (s.decidedBytes piece)) ∧
      ¬ token <:+: held ∧ held.length ≤ token.length + 2 ∧
      ((∀ split ∈ ((start token).pushAll (pieces ++ [piece])).1, split.found = false) →
        ((start token).segments (pieces ++ [piece])).flatten ++ held =
          (pieces ++ [piece]).flatten) := by
  intro s split held
  have htoken : s.token = token := pushAll_token _ _
  rw [← htoken] at ht ⊢
  refine ⟨held_of_found, fun hfound => ?_, not_infix_held_push ht, ?_, fun hnone => ?_⟩
  · exact ⟨heldBack_push ht hfound, decidedBytes_append_held hfound, text_push s piece⟩
  · cases hfound : split.found with
    | true =>
      have hheld : held = [] := held_of_found hfound
      simp [hheld]
    | false => exact (heldBack_push ht hfound).length_le
  · have hall := flatten_segments_append_held (s := start s.token) hnone
    have hlast : ((start s.token).pushAll (pieces ++ [piece])).2.held = held := by
      rw [htoken, pushAll_append]
      rfl
    rw [hlast] at hall
    exact hall

/-- Two of the three bytes of a character, in two pieces, and behind them the first byte of the
token. -/
theorem held_after_push_cut :
    let s := ((start [0x1D, 0x65]).pushAll [[0x61, 0xE6]]).2
    ([0x1D, 0x65] : List UInt8) ≠ [] ∧ s.held = [0xE6] ∧
      (s.push [0x97, 0x1D]).1.found = false ∧ (s.push [0x97, 0x1D]).2.held = [0xE6, 0x97, 0x1D] ∧
      HeldBack [0x1D, 0x65] ([0xE6] ++ [0x97, 0x1D]) [0xE6, 0x97, 0x1D] ∧
      [0xE6, 0x97, 0x1D].length ≤ [0x1D, 0x65].length + 2 := by
  have htoken : ([0x1D, 0x65] : List UInt8) ≠ [] := by decide
  have hs : ((start [0x1D, 0x65]).pushAll [[0x61, 0xE6]]).2.held = [0xE6] := by decide +kernel
  have hfound : ((((start [0x1D, 0x65]).pushAll [[0x61, 0xE6]]).2).push [0x97, 0x1D]).1.found =
      false := by decide +kernel
  have hheld : ((((start [0x1D, 0x65]).pushAll [[0x61, 0xE6]]).2).push [0x97, 0x1D]).2.held =
      [0xE6, 0x97, 0x1D] := by decide +kernel
  obtain ⟨-, hback, -, hle, -⟩ := held_after_push htoken [[0x61, 0xE6]] [0x97, 0x1D]
  rw [hs, hheld] at hback
  rw [hheld] at hle
  exact ⟨htoken, hs, hfound, hheld, (hback hfound).1, hle⟩

end

end SlimeServer.Splitter
