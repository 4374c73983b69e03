import SlimeServer.Proofs.FrameDelivery
/-!
# Streams of frames

Payloads that are written one after another into a buffer are read back from any pieces of it. A
payload that is too large is refused and leaves no trace in the buffer.
-/
namespace SlimeServer

inductive Delivers : List Delivery → List UInt8 → Prop
  | nil : Delivers [] []
  | pause {deliveries bytes} : Delivers deliveries bytes → Delivers (.pause :: deliveries) bytes
  | piece {piece deliveries bytes} : piece ≠ [] → Delivers deliveries bytes →
      Delivers (.bytes piece :: deliveries) (piece ++ bytes)

namespace Frame

section

variable {deliveries : List Delivery} {bytes : List UInt8}

theorem delivers_iff :
    Delivers deliveries bytes ↔ arrived deliveries = bytes ∧ ending deliveries = none := by
  constructor
  · intro h
    induction h with
    | nil => exact ⟨rfl, rfl⟩
    | pause _ ih => exact ih
    | piece hpiece _ ih =>
      rw [arrived_piece hpiece, ending_piece hpiece, ih.1]
      exact ⟨rfl, ih.2⟩
  · rintro ⟨rfl, hending⟩
    induction deliveries with
    | nil => exact .nil
    | cons delivery rest ih =>
      cases delivery with
      | pause => exact .pause (ih hending)
      | closed => cases hending
      | failed reason => cases hending
      | bytes piece =>
        by_cases hpiece : piece = []
        · subst hpiece
          cases hending
        · rw [ending_piece hpiece] at hending
          rw [arrived_piece hpiece]
          exact .piece hpiece (ih hending)

theorem read_delivers {payload more : List UInt8}
    (h : Delivers deliveries (framed payload ++ more)) (hmax : payload.length ≤ maxPayload) :
    ∃ rest, read deliveries = .done payload rest ∧ Delivers rest more := by
  obtain ⟨harrived, hending⟩ := delivers_iff.1 h
  obtain ⟨rest, hread, hmore, hends⟩ := read_of_begins (harrived ▸ begins_framed hmax more)
  exact ⟨rest, hread, delivers_iff.2 ⟨hmore, hends.trans hending⟩⟩

theorem read_nothing (h : Delivers deliveries []) : read deliveries = .starved := by
  obtain ⟨harrived, hending⟩ := delivers_iff.1 h
  rw [read_header_cutShort (by rw [harrived]; decide), cutShort, hending]

end

/-- Writes payloads one after another behind what has been written: the answer to each, and the
buffer after the last. -/
def writeAll (written : List UInt8) :
    List (List UInt8) → List (Except FrameError Unit) × List UInt8
  | [] => ([], written)
  | payload :: rest =>
    match write written payload with
    | .ok longer =>
      let (answers, buffer) := writeAll longer rest
      (.ok () :: answers, buffer)
    | .error error =>
      let (answers, buffer) := writeAll written rest
      (.error error :: answers, buffer)

/-- Reads frame after frame up to the first that cannot be read. The stream ends after its last
delivery. -/
def readAll (deliveries : List Delivery) : List (List UInt8) × FrameError :=
  match _h : read deliveries with
  | .done payload rest =>
    let (payloads, error) := readAll rest
    (payload :: payloads, error)
  | .failed error _ => ([], error)
  | .starved => ([], .connectionClosed)
termination_by volume deliveries
decreasing_by exact volume_read _h

theorem write_eq (written payload : List UInt8) :
    write written payload =
      if payload.length ≤ maxPayload then .ok (written ++ framed payload)
      else .error (.payloadTooLarge payload.length) := by
  split
  · rename_i hfits
    rw [write, encode_eq_ok hfits]
    rfl
  · rename_i hlarge
    rw [write, encode, if_pos (Nat.lt_of_not_le hlarge)]
    rfl

theorem writeAll_eq (written : List UInt8) (payloads : List (List UInt8)) :
    writeAll written payloads =
      (payloads.map fun payload =>
          if payload.length ≤ maxPayload then .ok ()
          else .error (.payloadTooLarge payload.length),
        written ++
          (payloads.filter fun payload => payload.length ≤ maxPayload).flatMap framed) := by
  induction payloads generalizing written with
  | nil => simp [writeAll]
  | cons payload rest ih =>
    rw [writeAll, write_eq]
    by_cases hfits : payload.length ≤ maxPayload
    · simp [hfits, ih]
    · simp [hfits, ih]

theorem readAll_framed {payloads : List (List UInt8)} {deliveries : List Delivery}
    (hfits : ∀ payload ∈ payloads, payload.length ≤ maxPayload)
    (h : Delivers deliveries (payloads.flatMap framed)) :
    readAll deliveries = (payloads, .connectionClosed) := by
  induction payloads generalizing deliveries with
  | nil =>
    have hread := read_nothing h
    rw [readAll]
    split <;> simp_all
  | cons payload rest ih =>
    rw [List.flatMap_cons] at h
    obtain ⟨left, hread, hleft⟩ := read_delivers h (hfits payload (List.mem_cons_self ..))
    have hrest := ih (fun p hp => hfits p (List.mem_cons_of_mem _ hp)) hleft
    rw [readAll]
    split <;> simp_all

/-- Writing refuses exactly the payloads that are too large and leaves the buffer as it was for
them. Any pieces of the buffer bring back the others, in order. -/
theorem readAll_writeAll (payloads : List (List UInt8)) :
    (∀ written, writeAll written payloads =
      (payloads.map fun payload =>
          if payload.length ≤ maxPayload then .ok ()
          else .error (.payloadTooLarge payload.length),
        written ++ (payloads.filter fun payload => payload.length ≤ maxPayload).flatMap framed)) ∧
    ∀ deliveries, Delivers deliveries (writeAll [] payloads).2 → readAll deliveries =
      (payloads.filter fun payload => payload.length ≤ maxPayload, .connectionClosed) := by
  refine ⟨fun written => writeAll_eq written payloads, fun deliveries h => ?_⟩
  rw [writeAll_eq, List.nil_append] at h
  exact readAll_framed (fun payload hp => by simpa using (List.mem_filter.1 hp).2) h

def oversized : List UInt8 := List.replicate (maxPayload + 1) 0

theorem length_oversized : oversized.length = 0x1000000 := List.length_replicate

theorem not_fits_oversized : ¬ oversized.length ≤ maxPayload := by
  rw [length_oversized]
  decide

/-- An empty payload, one that is too large and one of two bytes. What is left of them comes in
three pieces, cut inside both headers. -/
theorem readAll_writeAll_pieces :
    writeAll [] [[], oversized, [104, 105]] =
      ([.ok (), .error (.payloadTooLarge 0x1000000), .ok ()], framed [] ++ framed [104, 105]) ∧
    readAll [.bytes [48, 48, 48, 48], .pause, .bytes [48, 48, 48, 48, 48, 48, 48], .pause,
      .bytes [50, 104, 105]] = ([[], [104, 105]], .connectionClosed) := by
  obtain ⟨hwrite, hread⟩ := readAll_writeAll [[], oversized, [104, 105]]
  have hpieces : Delivers [.bytes [48, 48, 48, 48], .pause, .bytes [48, 48, 48, 48, 48, 48, 48],
      .pause, .bytes [50, 104, 105]] (framed [] ++ framed [104, 105]) :=
    .piece (by decide) (.pause (.piece (by decide) (.pause (.piece (by decide) .nil))))
  have hkept : [[], oversized, [104, 105]].filter (fun payload => payload.length ≤ maxPayload) =
      [[], [104, 105]] := by
    rw [List.filter_cons_of_pos (by decide),
      List.filter_cons_of_neg (by rw [decide_eq_true_iff]; exact not_fits_oversized)]
    rfl
  have hbuffer : writeAll [] [[], oversized, [104, 105]] =
      ([.ok (), .error (.payloadTooLarge 0x1000000), .ok ()], framed [] ++ framed [104, 105]) := by
    rw [hwrite, hkept, List.map_cons, List.map_cons, if_neg not_fits_oversized, length_oversized]
    rfl
  refine ⟨hbuffer, ?_⟩
  rw [hkept, hbuffer] at hread
  exact hread _ hpieces

end Frame
end SlimeServer
