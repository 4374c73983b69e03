import Mathlib.Data.List.Infix
import SlimeServer.Proofs.Evaluator.Splitter
/-!
# The piece with which the token is found

A token that occurs in the output is found, however the output is cut into pieces: whatever could
begin it is held back until the next piece decides. The pieces up to the one that completes it are
all that an operation takes.
-/
namespace SlimeServer.Splitter

/-- A token that is not in what has been seen, and not found with the next piece, is not in both
together. -/
theorem Holds.absent_push {s : Splitter} {piece seen : List UInt8} (h : s.Holds seen)
    (ht : s.token ≠ []) (habsent : ∀ i, ¬ s.token <+: seen.drop i)
    (hfound : (s.push piece).1.found = false) (i : Nat) :
    ¬ s.token <+: (seen ++ piece).drop i := by
  intro hp
  obtain ⟨before, rfl⟩ := h.suffix
  rcases Nat.lt_or_ge i before.length with hi | hi
  · -- The token starts before what is held back.
    have hdrop : ((before ++ s.held) ++ piece).drop i = (before ++ s.held).drop i ++ piece :=
      List.drop_append_of_le_length (by rw [List.length_append]; omega)
    rw [hdrop] at hp
    rcases Nat.lt_or_ge ((before ++ s.held).drop i).length s.token.length with hshort | hlong
    · have hbegun : (before ++ s.held).drop i <+: s.token :=
        List.prefix_of_prefix_length_le (List.prefix_append _ _) hp (by omega)
      have hends : s.token.take ((before ++ s.held).drop i).length <:+ before ++ s.held := by
        rw [← List.prefix_iff_eq_take.1 hbegun]
        exact List.drop_suffix _ _
      have := h.begins _ hshort hends
      rw [List.length_drop, List.length_append] at this
      omega
    · exact habsent i (List.prefix_of_prefix_length_le hp (List.prefix_append _ _) hlong)
  · obtain ⟨j, rfl⟩ := Nat.exists_eq_add_of_le hi
    rw [List.append_assoc, ← List.drop_drop, List.drop_left] at hp
    simp only [Splitter.push] at hfound
    split at hfound
    · cases hfound
    · rename_i hnone
      exact lastIndex?_ne_none ht hp hnone

/-- A token that no piece completes does not occur. -/
theorem Holds.absent_pushAll {s : Splitter} {pieces : List (List UInt8)} {seen : List UInt8}
    (h : s.Holds seen) (ht : s.token ≠ []) (habsent : ∀ i, ¬ s.token <+: seen.drop i)
    (hfound : ∀ split ∈ (s.pushAll pieces).1, split.found = false) (i : Nat) :
    ¬ s.token <+: (seen ++ pieces.flatten).drop i := by
  induction pieces generalizing s seen with
  | nil => simpa using habsent i
  | cons piece rest ih =>
    have hfound₁ : (s.push piece).1.found = false := hfound _ (List.mem_cons_self ..)
    rw [List.flatten_cons, ← List.append_assoc, ← s.push_token piece]
    apply ih (h.push hfound₁)
    · rw [push_token]
      exact ht
    · rw [push_token]
      exact h.absent_push ht habsent hfound₁
    · exact fun split hsplit => hfound split (List.mem_cons_of_mem _ hsplit)

/-- What the pieces bring up to the one that completes the token. -/
def upToToken (s : Splitter) : List (List UInt8) → List Split
  | [] => []
  | piece :: rest =>
    let (split, next) := s.push piece
    split :: if split.found then [] else next.upToToken rest

def Finds (s : Splitter) (pieces : List (List UInt8)) : Prop :=
  ∃ split ∈ s.upToToken pieces, split.found = true

theorem upToToken_of_found {s : Splitter} {piece : List UInt8} (rest : List (List UInt8))
    (h : (s.push piece).1.found = true) : s.upToToken (piece :: rest) = [(s.push piece).1] := by
  simp [upToToken, h]

theorem upToToken_of_not_found {s : Splitter} {piece : List UInt8} (rest : List (List UInt8))
    (h : (s.push piece).1.found = false) :
    s.upToToken (piece :: rest) = (s.push piece).1 :: (s.push piece).2.upToToken rest := by
  simp [upToToken, h]

/-- Where no piece completes the token, all of them are taken. -/
theorem pushAll_of_not_finds {s : Splitter} {pieces : List (List UInt8)} (h : ¬ s.Finds pieces) :
    ∀ split ∈ (s.pushAll pieces).1, split.found = false := by
  induction pieces generalizing s with
  | nil => simp [pushAll]
  | cons piece rest ih =>
    cases hfound : (s.push piece).1.found with
    | true =>
      rw [Finds, upToToken_of_found rest hfound] at h
      exact absurd ⟨_, List.mem_singleton_self _, hfound⟩ h
    | false =>
      rw [Finds, upToToken_of_not_found rest hfound] at h
      intro split hsplit
      rcases List.mem_cons.1 hsplit with rfl | hsplit
      · exact hfound
      · refine ih ?_ split hsplit
        rintro ⟨later, hmem, hlater⟩
        exact h ⟨later, List.mem_cons_of_mem _ hmem, hlater⟩

theorem finds_of_occurrences {token : List UInt8} {pieces : List (List UInt8)}
    (h : occurrences token pieces.flatten ≠ 0) : (start token).Finds pieces := by
  obtain ⟨ht, i, hi⟩ := exists_prefix_of_occurrences h
  apply Classical.byContradiction
  intro hnone
  refine (holds_nil (s := start token) rfl).absent_pushAll ht ?_ (pushAll_of_not_finds hnone) i hi
  intro i hp
  rw [List.drop_nil] at hp
  exact ht (List.prefix_nil.1 hp)

theorem Finds.ne_nil {s : Splitter} {pieces : List (List UInt8)} (h : s.Finds pieces) :
    pieces ≠ [] := by
  rintro rfl
  obtain ⟨split, hmem, -⟩ := h
  cases hmem

theorem Finds.later {s : Splitter} {piece : List UInt8} {rest : List (List UInt8)}
    (h : s.Finds (piece :: rest)) (hfound : (s.push piece).1.found = false) :
    (s.push piece).2.Finds rest := by
  obtain ⟨split, hmem, hsplit⟩ := h
  rw [upToToken_of_not_found rest hfound] at hmem
  rcases List.mem_cons.1 hmem with rfl | hmem
  · rw [hfound] at hsplit
    cases hsplit
  · exact ⟨split, hmem, hsplit⟩

theorem Finds.split {s : Splitter} {pieces : List (List UInt8)} (h : s.Finds pieces) :
    ∃ first last extra, pieces = first ++ last :: extra ∧
      (∀ split ∈ (s.pushAll first).1, split.found = false) ∧
      ((s.pushAll first).2.push last).1.found = true := by
  induction pieces generalizing s with
  | nil => exact absurd rfl h.ne_nil
  | cons piece rest ih =>
    cases hfound : (s.push piece).1.found with
    | true => exact ⟨[], piece, rest, rfl, by simp [pushAll], hfound⟩
    | false =>
      obtain ⟨first, last, extra, rfl, hfirst, hlast⟩ := ih (h.later hfound)
      exact ⟨piece :: first, last, extra, rfl, List.forall_mem_cons.2 ⟨hfound, hfirst⟩, hlast⟩

theorem Holds.occurs_of_found {s : Splitter} {piece seen : List UInt8} (h : s.Holds seen)
    (hfound : (s.push piece).1.found = true) : ∃ i, s.token <+: (seen ++ piece).drop i := by
  obtain ⟨before, rfl⟩ := h.suffix
  simp only [Splitter.push] at hfound
  split at hfound
  · rename_i i hi
    refine ⟨before.length + i, ?_⟩
    rw [List.append_assoc, ← List.drop_drop, List.drop_left]
    exact prefix_of_lastIndex? hi
  · cases hfound

/-- Behind the piece that completes a token at the end of the output comes nothing. -/
theorem flatten_extra_eq_nil {token before last : List UInt8} {first extra : List (List UInt8)}
    (ho : OnlyAfter token before [])
    (hcut : (first ++ last :: extra).flatten = before ++ token)
    (hfirst : ∀ split ∈ ((start token).pushAll first).1, split.found = false)
    (hlast : (((start token).pushAll first).2.push last).1.found = true) :
    extra.flatten = [] := by
  have hholds := (holds_nil (s := start token) rfl).pushAll hfirst
  obtain ⟨i, hi⟩ := hholds.occurs_of_found hlast
  rw [pushAll_token, List.nil_append] at hi
  replace hi : token <+: (first.flatten ++ last).drop i := hi
  rw [List.flatten_append, List.flatten_cons, ← List.append_assoc] at hcut
  have hpos := List.length_pos_iff.2 ho.1
  have hlength := hi.length_le
  rw [List.length_drop] at hlength
  have hdrop : (before ++ token ++ []).drop i =
      (first.flatten ++ last).drop i ++ extra.flatten := by
    rw [List.append_nil, ← hcut]
    exact List.drop_append_of_le_length (by omega)
  have hplace : i = before.length := ho.2 i (hdrop ▸ hi.trans (List.prefix_append _ _))
  have htotal := congrArg List.length hcut
  simp only [List.length_append] at htotal hlength
  exact List.length_eq_zero_iff.1 (by omega)

section

variable {s : Splitter} {piece seen token : List UInt8} {pieces : List (List UInt8)}

theorem infix_iff_drop {bytes : List UInt8} : token <:+: bytes ↔ ∃ i, token <+: bytes.drop i := by
  constructor
  · rintro ⟨before, after, rfl⟩
    exact ⟨before.length, by simp⟩
  · rintro ⟨i, h⟩
    exact h.isInfix.trans (List.drop_suffix i bytes).isInfix

theorem lastIndex?_of_not_found (h : (s.push piece).1.found = false) :
    lastIndex? s.token (s.held ++ piece) = none := by
  simp only [push] at h
  split at h
  · cases h
  · assumption

theorem held_of_found (h : (s.push piece).1.found = true) : (s.push piece).2.held = [] := by
  simp only [push] at h ⊢
  split at h
  · rfl
  · cases h

/-- The first push that finds the token is the one with which the token has come. -/
theorem Holds.findIdx?_found (h : s.Holds seen) (ht : s.token ≠ []) (habsent : ¬ s.token <:+: seen)
    (pieces : List (List UInt8)) :
    (s.pushAll pieces).1.findIdx? Split.found =
      (List.range pieces.length).find? fun n =>
        decide (s.token <:+: seen ++ (pieces.take (n + 1)).flatten) := by
  induction pieces generalizing s seen with
  | nil => rfl
  | cons piece rest ih =>
    have hsplits : (s.pushAll (piece :: rest)).1 =
        (s.push piece).1 :: ((s.push piece).2.pushAll rest).1 := rfl
    have hfirst : ((piece :: rest).take (0 + 1)).flatten = piece := List.append_nil piece
    rw [hsplits, List.findIdx?_cons, List.length_cons, List.range_succ_eq_map, List.find?_cons,
      hfirst]
    cases hfound : (s.push piece).1.found with
    | true =>
      have hcome : s.token <:+: seen ++ piece := infix_iff_drop.2 (h.occurs_of_found hfound)
      simp [hcome]
    | false =>
      have habsent' : ¬ s.token <:+: seen ++ piece := by
        rw [infix_iff_drop] at habsent ⊢
        rintro ⟨i, hi⟩
        exact h.absent_push ht (fun j hj => habsent ⟨j, hj⟩) hfound i hi
      have hrest := ih (h.push hfound) (by rw [push_token]; exact ht)
        (by rw [push_token]; exact habsent')
      simp only [push_token, List.append_assoc] at hrest
      rw [hrest, decide_eq_false habsent', List.find?_map]
      rfl

/-- Pieces of a text in which the token is not found: what is decided of them and what is held back
are what has come. -/
theorem pushAll_within {output : List Char}
    (hb : s.held ++ pieces.flatten <+: output.flatMap Utf8.encodeChar)
    (hfound : ∀ split ∈ (s.pushAll pieces).1, split.found = false) :
    (textOf (s.pushAll pieces).1).flatMap Utf8.encodeChar ++ (s.pushAll pieces).2.held =
      s.held ++ pieces.flatten := by
  induction pieces generalizing s output with
  | nil => simp [pushAll, textOf]
  | cons piece rest ih =>
    have hnone := lastIndex?_of_not_found (hfound _ (List.mem_cons_self ..))
    rw [List.flatten_cons, ← List.append_assoc] at hb ⊢
    obtain ⟨before, after, rfl, hsplit, hheld⟩ := push_within hnone
      ((List.take_prefix _ _).trans ((List.prefix_append _ _).trans hb))
    rw [List.flatMap_append, ← hheld, List.append_assoc, List.prefix_append_right_inj] at hb
    have hrest := ih hb fun split hsplit => hfound split (List.mem_cons_of_mem _ hsplit)
    have htext : textOf (s.pushAll (piece :: rest)).1 =
        before ++ textOf ((s.push piece).2.pushAll rest).1 := by
      simp [pushAll, textOf, hsplit]
    rw [htext, List.flatMap_append, ← hheld, List.append_assoc, List.append_assoc]
    exact congrArg _ hrest

/-- The pieces up to the first push that finds the token. -/
theorem take_of_findIdx?_found {n : Nat} (ht : token ≠ [])
    (h : ((start token).pushAll pieces).1.findIdx? Split.found = some n) :
    ∃ last, pieces.take (n + 1) = pieces.take n ++ [last] ∧
      ¬ token <:+: (pieces.take n).flatten := by
  have hnothing : ¬ (start token).token <:+: [] := fun hin => ht (List.infix_nil.1 hin)
  rw [(holds_nil (s := start token) rfl).findIdx?_found ht hnothing, List.find?_range_eq_some] at h
  obtain ⟨-, hmem, hbefore⟩ := h
  have hn : n < pieces.length := List.mem_range.1 hmem
  refine ⟨pieces[n], List.take_succ_eq_append_getElem hn, ?_⟩
  cases n with
  | zero => simpa using ht
  | succ m =>
    have hm := hbefore m (Nat.lt_succ_self m)
    rw [Bool.not_eq_true', decide_eq_false_iff_not] at hm
    exact hm

/-- A token is found with the first push after which it has come, however the stream is cut. Up to
then, of a stream of text nothing is lost: what is decided and what is held back are what has come.
And where the token has come once, the texts up to then are what stands before it. -/
theorem token_found_in_time (ht : token ≠ []) (pieces : List (List UInt8)) :
    ((start token).pushAll pieces).1.findIdx? Split.found =
        ((List.range pieces.length).find? fun n =>
          decide (token <:+: (pieces.take (n + 1)).flatten)) ∧
      (∀ text : String, (∀ split ∈ ((start token).pushAll pieces).1, split.found = false) →
        pieces.flatten <+: Utf8.encode text →
        (textOf ((start token).pushAll pieces).1).flatMap Utf8.encodeChar ++
          ((start token).pushAll pieces).2.held = pieces.flatten) ∧
      ∀ (n : Nat) (before : String) (after : List UInt8),
        ((start token).pushAll pieces).1.findIdx? Split.found = some n →
        (pieces.take (n + 1)).flatten = Utf8.encode before ++ token ++ after →
        occurrences token (pieces.take (n + 1)).flatten = 1 →
        textOf ((start token).pushAll (pieces.take (n + 1))).1 = before.toList ∧
          ((start token).pushAll (pieces.take (n + 1))).2.held = [] := by
  refine ⟨?_, ?_, ?_⟩
  · have hnothing : ¬ (start token).token <:+: [] := fun hin => ht (List.infix_nil.1 hin)
    exact (holds_nil rfl).findIdx?_found ht hnothing pieces
  · intro text hfound hb
    exact pushAll_within hb hfound
  · intro n before after hn hcut honce
    obtain ⟨last, htake, habsent⟩ := take_of_findIdx?_found ht hn
    rw [hcut] at honce
    have ho : OnlyAfter (start token).token (before.toList.flatMap Utf8.encodeChar) after :=
      onlyAfter_of_occurrences honce
    have hlt : (pieces.take n).flatten.length <
        (before.toList.flatMap Utf8.encodeChar).length + (start token).token.length := by
      apply Nat.lt_of_not_le
      intro hle
      -- Otherwise the token would have come before the last of these pieces.
      have hwhole : Utf8.encode before ++ token <+: (pieces.take (n + 1)).flatten := by
        rw [hcut]
        exact List.prefix_append _ _
      have hfirst : (pieces.take n).flatten <+: (pieces.take (n + 1)).flatten := by
        rw [htake, List.flatten_append]
        exact List.prefix_append _ _
      have hbegin : Utf8.encode before ++ token <+: (pieces.take n).flatten := by
        apply List.prefix_of_prefix_length_le hwhole hfirst
        rw [List.length_append]
        exact hle
      exact habsent ((List.suffix_append _ _).isInfix.trans hbegin.isInfix)
    rw [htake] at hcut ⊢
    have hlength := congrArg List.length hcut
    rw [List.flatten_append, List.flatten_singleton] at hlength
    simp only [List.length_append, Utf8.encode] at hlength
    obtain ⟨left, hleft, -, -, hlast⟩ := pushAll_output rfl ho hcut rfl hlt
      (by simp only [start]; omega)
    have hfound : (((start token).pushAll (pieces.take n)).2.push last).1.found = true := by
      rw [hlast]
    rw [pushAll_append]
    refine ⟨?_, held_of_found hfound⟩
    rw [hleft]
    simp [pushAll, textOf, hlast]

/-- A token that overlaps itself, behind a text that begins it. -/
theorem token_found_in_time_overlapping :
    ([1, 1, 2] : List UInt8) ≠ [] ∧
      ((start [1, 1, 2]).pushAll [[0x61, 1], [1], [1, 2, 0x62]]).1.findIdx? Split.found = some 2 ∧
      occurrences [1, 1, 2] [0x61, 1, 1, 1, 2, 0x62] = 1 ∧
      textOf ((start [1, 1, 2]).pushAll [[0x61, 1], [1], [1, 2, 0x62]]).1 = ['a', '\x01'] ∧
      ((start [1, 1, 2]).pushAll [[0x61, 1], [1], [1, 2, 0x62]]).2.held = [] := by
  have hfound : ((start [1, 1, 2]).pushAll [[0x61, 1], [1], [1, 2, 0x62]]).1.findIdx?
      Split.found = some 2 := by decide +kernel
  have htoken : ([1, 1, 2] : List UInt8) ≠ [] := by decide
  obtain ⟨-, -, hwhole⟩ := token_found_in_time htoken [[0x61, 1], [1], [1, 2, 0x62]]
  exact ⟨htoken, hfound, by decide, hwhole 2 "a\x01" [0x62] hfound (by decide +kernel) (by decide)⟩

end

end SlimeServer.Splitter
