import SlimeServer.Proofs.Evaluator.Detection
import SlimeServer.Proofs.Text.Lossy
/-!
# Decoding output piece by piece

Every push decodes the bytes that it decides on their own. Together these bytes are the output, but
their texts are the text of the output only where no push ends inside a character that the output
goes on with. A push ends there only where something before that character is malformed.
-/
namespace SlimeServer.Splitter

open Utf8 (Decoder CharactersWhole)

def decidedBytes (s : Splitter) (piece : List UInt8) : List UInt8 :=
  match lastIndex? s.token (s.held ++ piece) with
  | some i => (s.held ++ piece).take i
  | none => (s.held ++ piece).take (decided s.token (s.held ++ piece))

/-- The bytes decided by each push, up to the one that finds the token. -/
def segments (s : Splitter) : List (List UInt8) → List (List UInt8)
  | [] => []
  | piece :: rest =>
    s.decidedBytes piece ::
      if (s.push piece).1.found then [] else (s.push piece).2.segments rest

section

variable {s : Splitter} {piece more token output : List UInt8} {pieces : List (List UInt8)}

theorem text_push (s : Splitter) (piece : List UInt8) :
    (s.push piece).1.text = Utf8.decodeLossy (s.decidedBytes piece) := by
  simp only [push, decidedBytes]
  cases lastIndex? s.token (s.held ++ piece) <;> rfl

theorem decidedBytes_append_held (h : (s.push piece).1.found = false) :
    s.decidedBytes piece ++ (s.push piece).2.held = s.held ++ piece := by
  have hnone := lastIndex?_of_not_found h
  simp only [push, decidedBytes, hnone, List.take_append_drop]

/-- Up to the end of the token, a push that does not find it decides part of the output. -/
theorem decidedBytes_prefix (ho : OnlyAfter s.token output [])
    (hcut : s.held ++ piece ++ more = output ++ s.token)
    (h : (s.push piece).1.found = false) : s.decidedBytes piece <+: output := by
  have hnone := lastIndex?_of_not_found h
  have hb : s.held ++ piece <+: output ++ s.token := ⟨more, hcut⟩
  have hlen : (s.held ++ piece).length < output.length + s.token.length := by
    apply Nat.lt_of_not_le
    intro hle
    have hall : s.held ++ piece = output ++ s.token := by
      apply hb.eq_of_length_le
      rw [List.length_append]
      exact hle
    have hstarts : s.token <+: (s.held ++ piece).drop output.length :=
      ⟨[], by rw [hall, List.drop_left, List.append_nil]⟩
    exact lastIndex?_ne_none ho.1 hstarts hnone
  have hwithin : s.held ++ piece <+: output ++ s.token ++ [] := by
    rw [List.append_nil]
    exact hb
  have hsure := take_sure_within hwithin hlen
  refine List.IsPrefix.trans ?_ hsure
  simp only [decidedBytes, hnone, decided]
  exact List.take_prefix_take_left (Nat.sub_le _ _)

/-- The push that finds the token decides what is left of the output. -/
theorem decidedBytes_of_found (ho : OnlyAfter s.token output [])
    (hcut : s.held ++ piece ++ more = output ++ s.token)
    (h : (s.push piece).1.found = true) : s.decidedBytes piece = output := by
  simp only [push] at h
  split at h
  · rename_i i hi
    have hstarts := prefix_of_lastIndex? hi
    have hlength := hstarts.length_le
    have hpos := List.length_pos_iff.2 ho.1
    rw [List.length_drop] at hlength
    have hplace : i = output.length := by
      apply ho.2
      rw [List.append_nil, ← hcut, List.drop_append_of_le_length (by omega)]
      exact hstarts.trans (List.prefix_append _ _)
    have htake := congrArg (List.take i) hcut
    rw [List.take_append_of_le_length (by omega), hplace, List.take_left, ← hplace] at htake
    simp only [decidedBytes, hi, htake]
  · cases h

/-- The bytes decided up to the token are the output, wherever it was cut. -/
theorem flatten_segments (ho : OnlyAfter s.token output [])
    (hcut : s.held ++ pieces.flatten = output ++ s.token) (hfinds : s.Finds pieces) :
    (s.segments pieces).flatten = output := by
  induction pieces generalizing s output with
  | nil => exact absurd rfl hfinds.ne_nil
  | cons piece rest ih =>
    rw [List.flatten_cons, ← List.append_assoc] at hcut
    cases hfound : (s.push piece).1.found with
    | true => simp [segments, hfound, decidedBytes_of_found ho hcut hfound]
    | false =>
      obtain ⟨after, rfl⟩ := decidedBytes_prefix ho hcut hfound
      rw [← decidedBytes_append_held hfound, List.append_assoc, List.append_assoc,
        List.append_cancel_left_eq] at hcut
      have hrest := ih (s := (s.push piece).2) (by rw [push_token]; exact ho.drop)
        (by rw [push_token]; exact hcut) (hfinds.later hfound)
      simp [segments, hfound, hrest]

theorem textOf_upToToken (s : Splitter) (pieces : List (List UInt8)) :
    textOf (s.upToToken pieces) =
      (s.segments pieces).flatMap fun bytes => (Utf8.decodeLossy bytes).toList := by
  induction pieces generalizing s with
  | nil => rfl
  | cons piece rest ih =>
    rw [upToToken, segments, textOf, List.flatMap_cons, List.flatMap_cons, text_push]
    cases (s.push piece).1.found with
    | true => rfl
    | false => exact congrArg _ (ih _)

theorem owed_decidedBytes (h : (s.push piece).1.found = false)
    (hsound : none ∉ (Decoder.start.run (s.decidedBytes piece)).items) :
    (Decoder.start.run (s.decidedBytes piece)).owed = none := by
  have hnone := lastIndex?_of_not_found h
  have hdecided : s.decidedBytes piece =
      (s.held ++ piece).take (decided s.token (s.held ++ piece)) := by
    simp only [decidedBytes, hnone]
  rw [hdecided, take_decided] at hsound ⊢
  exact Utf8.owed_take_unfinishedTail hsound

/-- Where no push decides anything malformed, all pushes end between characters. -/
theorem cleanlyCut_segments
    (h : ∀ segment ∈ s.segments pieces, none ∉ (Decoder.start.run segment).items) :
    Text.CleanlyCut CharactersWhole (s.segments pieces) := by
  induction pieces generalizing s with
  | nil => trivial
  | cons piece rest ih =>
    rw [segments] at h ⊢
    cases hfound : (s.push piece).1.found with
    | true =>
      refine ⟨fun o _ b hb => ?_, trivial⟩
      cases hb
    | false =>
      rw [hfound] at h
      obtain ⟨hfirst, hrest⟩ := List.forall_mem_cons.1 h
      have howed := owed_decidedBytes hfound hfirst
      refine ⟨fun o ho => ?_, ih hrest⟩
      rw [howed] at ho
      cases ho

/-- The texts of the output, cut anywhere, are its decoding exactly where no push ends inside a
character that the output goes on with. So it is where no push decides anything malformed. -/
theorem textOf_upToToken_eq_decodeLossy_iff (ho : OnlyAfter token output [])
    (hcut : pieces.flatten = output ++ token) :
    (start token).Finds pieces ∧ ((start token).segments pieces).flatten = output ∧
      (textOf ((start token).upToToken pieces) = (Utf8.decodeLossy output).toList ↔
        Text.CleanlyCut CharactersWhole ((start token).segments pieces)) ∧
      ((∀ segment ∈ (start token).segments pieces, none ∉ (Decoder.start.run segment).items) →
        textOf ((start token).upToToken pieces) = (Utf8.decodeLossy output).toList) := by
  have hfinds : (start token).Finds pieces :=
    finds_of_occurrences (ho.occurrences_ne_zero hcut)
  have hsegments : ((start token).segments pieces).flatten = output :=
    flatten_segments ho hcut hfinds
  have hiff := Utf8.segmental_decodeLossy.flatMap_eq_iff ((start token).segments pieces)
  rw [← textOf_upToToken, hsegments] at hiff
  exact ⟨hfinds, hsegments, hiff, fun hsound => hiff.2 (cleanlyCut_segments hsound)⟩

theorem onlyAfter_malformed : OnlyAfter [0x54] [0xFF, 0xE6, 0x97, 0xA5] [] :=
  onlyAfter_of_occurrences (by decide)

/-- A byte that is no UTF-8 and a character of three bytes, cut inside the character but not between
the two: nothing malformed is decided with the beginning of the character. -/
theorem textOf_upToToken_malformed_apart :
    OnlyAfter [0x54] [0xFF, 0xE6, 0x97, 0xA5] [] ∧
      (textOf ((start [0x54]).upToToken [[0xFF], [0xE6], [0x97, 0xA5, 0x54]]) =
          (Utf8.decodeLossy [0xFF, 0xE6, 0x97, 0xA5]).toList ↔
        Text.CleanlyCut CharactersWhole [[0xFF], [], [0xE6, 0x97, 0xA5]]) := by
  have hcut : ([[0xFF], [0xE6], [0x97, 0xA5, 0x54]] : List (List UInt8)).flatten =
      [0xFF, 0xE6, 0x97, 0xA5] ++ [0x54] := rfl
  obtain ⟨-, -, hiff, -⟩ := textOf_upToToken_eq_decodeLossy_iff onlyAfter_malformed hcut
  have hsegments : (start [0x54]).segments [[0xFF], [0xE6], [0x97, 0xA5, 0x54]] =
      [[0xFF], [], [0xE6, 0x97, 0xA5]] := by decide +kernel
  rw [hsegments] at hiff
  exact ⟨onlyAfter_malformed, hiff⟩

/-- Behind a byte that is no UTF-8 a character cut in two is replaced on both sides of the cut. -/
theorem character_replaced_behind_malformed :
    OnlyAfter [0x54] [0xFF, 0xE6, 0x97, 0xA5] [] ∧
      [[0xFF, 0xE6], [0x97, 0xA5, 0x54]].flatten = [0xFF, 0xE6, 0x97, 0xA5] ++ [0x54] ∧
      textOf ((start [0x54]).upToToken [[0xFF, 0xE6], [0x97, 0xA5, 0x54]]) =
        ['\uFFFD', '\uFFFD', '\uFFFD', '\uFFFD'] ∧
      (Utf8.decodeLossy [0xFF, 0xE6, 0x97, 0xA5]).toList = ['\uFFFD', '日'] ∧
      textOf ((start [0x54]).upToToken [[0xFF, 0xE6], [0x97, 0xA5, 0x54]]) ≠
        (Utf8.decodeLossy [0xFF, 0xE6, 0x97, 0xA5]).toList :=
  ⟨onlyAfter_malformed, rfl, by decide +kernel, by decide +kernel, by decide +kernel⟩

end

end SlimeServer.Splitter
