import SlimeServer.Proofs.Frame
/-!
# Reading from deliveries

What a reading comes to depends on the bytes that arrive and on what ends them. Bytes that arrive are
taken, and nothing behind them is touched; where too few arrive, the reading ends as the stream does.
-/
namespace SlimeServer.Frame

def arrived : List Delivery → List UInt8
  | .bytes piece :: rest => if piece.isEmpty then [] else piece ++ arrived rest
  | .pause :: rest => arrived rest
  | _ => []

/-- The error that a delivery is to a reader who wants bytes. -/
def errorOf : Delivery → Option FrameError
  | .bytes piece => if piece.isEmpty then some .connectionClosed else none
  | .pause => none
  | .closed => some .connectionClosed
  | .failed reason => some (.failed reason)

/-- The first error of a stream and the deliveries behind it. -/
def ending : List Delivery → Option (FrameError × List Delivery)
  | [] => none
  | delivery :: rest =>
    match errorOf delivery with
    | some error => some (error, rest)
    | none => ending rest

/-- The result of wanting more bytes than arrive: the error that ends the stream, and no result yet
where nothing has ended it. -/
def cutShort {α : Type} (deliveries : List Delivery) : Reading α :=
  match ending deliveries with
  | some (error, rest) => .failed error rest
  | none => .starved

/-- Taking bytes from a stream, and the deliveries that this leaves. A piece that is wanted in part
stays with the rest of it, and where no byte is wanted any more nothing is taken, not even a
pause. -/
inductive Takes : List Delivery → List UInt8 → List Delivery → Prop
  | none {deliveries} : Takes deliveries [] deliveries
  | pause {deliveries bytes rest} (hbytes : bytes ≠ []) (h : Takes deliveries bytes rest) :
      Takes (.pause :: deliveries) bytes rest
  | piece {piece deliveries bytes rest} (hpiece : piece ≠ []) (h : Takes deliveries bytes rest) :
      Takes (.bytes piece :: deliveries) (piece ++ bytes) rest
  | part {front back deliveries} (hfront : front ≠ []) (hback : back ≠ []) :
      Takes (.bytes (front ++ back) :: deliveries) front (.bytes back :: deliveries)

section

variable {deliveries more rest : List Delivery} {bytes got piece : List UInt8} {count : Nat}

theorem arrived_piece (hpiece : piece ≠ []) :
    arrived (.bytes piece :: deliveries) = piece ++ arrived deliveries := by
  rw [arrived, if_neg (by rwa [List.isEmpty_iff])]

theorem ending_piece (hpiece : piece ≠ []) :
    ending (.bytes piece :: deliveries) = ending deliveries := by
  rw [ending, errorOf, if_neg (by rwa [List.isEmpty_iff])]

theorem arrived_of_takes (h : Takes deliveries bytes rest) :
    arrived deliveries = bytes ++ arrived rest := by
  induction h with
  | none => rfl
  | pause _ _ ih => exact ih
  | piece hpiece _ ih => rw [arrived_piece hpiece, ih, List.append_assoc]
  | part hfront hback =>
    rw [arrived_piece hback, arrived_piece (List.append_ne_nil_of_left_ne_nil hfront _),
      List.append_assoc]

theorem arrived_of_takes_take (h : Takes deliveries ((arrived deliveries).take count) rest) :
    arrived rest = (arrived deliveries).drop count := by
  have hbytes : (arrived deliveries).take count ++ arrived rest =
      (arrived deliveries).take count ++ (arrived deliveries).drop count := by
    rw [← arrived_of_takes h, List.take_append_drop]
  exact List.append_cancel_left hbytes

theorem ending_of_takes (h : Takes deliveries bytes rest) : ending rest = ending deliveries := by
  induction h with
  | none => rfl
  | pause _ _ ih => exact ih
  | piece hpiece _ ih => rw [ih, ending_piece hpiece]
  | part hfront hback =>
    rw [ending_piece hback, ending_piece (List.append_ne_nil_of_left_ne_nil hfront _)]

theorem takes_append {bytes' : List UInt8} (h : Takes deliveries bytes more)
    (h' : Takes more bytes' rest) : Takes deliveries (bytes ++ bytes') rest := by
  induction h generalizing bytes' rest with
  | none => exact h'
  | pause hbytes _ ih => exact .pause (List.append_ne_nil_of_left_ne_nil hbytes _) (ih h')
  | piece hpiece _ ih =>
    rw [List.append_assoc]
    exact .piece hpiece (ih h')
  | @part front back deliveries hfront hback =>
    have hne : ∀ bytes, front ++ bytes ≠ [] := List.append_ne_nil_of_left_ne_nil hfront
    cases h' with
    | none =>
      rw [List.append_nil]
      exact .part hfront hback
    | piece _ h' =>
      rw [← List.append_assoc]
      exact .piece (hne _) h'
    | @part front' back' _ _ hback' =>
      rw [← List.append_assoc]
      exact .part (hne _) hback'

/-- Some bytes of the first piece. -/
theorem takes_putBack (hpos : 0 < count) (hcount : count ≤ piece.length) :
    Takes (.bytes piece :: more) (piece.take count) (putBack (piece.drop count) more) := by
  have hpiece : piece ≠ [] := List.ne_nil_of_length_pos (by omega)
  rcases Nat.eq_or_lt_of_le hcount with rfl | hlt
  · rw [List.take_length, List.drop_length]
    have htakes : Takes (.bytes piece :: more) (piece ++ []) more := .piece hpiece .none
    rwa [List.append_nil] at htakes
  · have hfront : piece.take count ≠ [] :=
      List.ne_nil_of_length_pos (by rw [List.length_take]; omega)
    have hback : piece.drop count ≠ [] :=
      List.ne_nil_of_length_pos (by rw [List.length_drop]; omega)
    have htakes : Takes (.bytes (piece.take count ++ piece.drop count) :: more) (piece.take count)
        (.bytes (piece.drop count) :: more) := .part hfront hback
    rw [List.take_append_drop] at htakes
    rwa [putBack, if_neg (by rwa [List.isEmpty_iff])]

/-- A count of bytes that arrives is read, and nothing behind it is touched. -/
theorem fill_takes (deliveries : List Delivery) (count : Nat) (got : List UInt8)
    (h : count ≤ (arrived deliveries).length) :
    ∃ rest, fill count got deliveries = .done (got ++ (arrived deliveries).take count) rest ∧
      Takes deliveries ((arrived deliveries).take count) rest := by
  rcases Nat.eq_zero_or_pos count with rfl | hpos
  · exact ⟨deliveries, by simp [fill_zero], by simpa using .none⟩
  have hcount : ¬ count = 0 := by omega
  induction deliveries generalizing count got with
  | nil => exact absurd (Nat.le_zero.1 h) hcount
  | cons delivery more ih =>
    cases delivery with
    | closed => exact absurd (Nat.le_zero.1 h) hcount
    | failed reason => exact absurd (Nat.le_zero.1 h) hcount
    | pause =>
      obtain ⟨rest, hfill, htakes⟩ := ih count got h hpos hcount
      have hmore : count ≤ (arrived more).length := h
      have hbytes : (arrived more).take count ≠ [] :=
        List.ne_nil_of_length_pos (by rw [List.length_take_of_le hmore]; exact hpos)
      rw [fill, if_neg hcount]
      exact ⟨rest, hfill, .pause hbytes htakes⟩
    | bytes piece =>
      rw [fill, if_neg hcount]
      by_cases hempty : piece.isEmpty = true
      · rw [arrived, if_pos hempty] at h
        exact absurd (Nat.le_zero.1 h) hcount
      · have hpiece : piece ≠ [] := by rwa [List.isEmpty_iff] at hempty
        rw [arrived_piece hpiece, List.length_append] at h
        simp only [if_neg hempty, arrived_piece hpiece]
        by_cases hlt : piece.length < count
        · obtain ⟨rest, hfill, htakes⟩ := ih (count - piece.length) (got ++ piece)
            (by omega) (by omega) (by omega)
          have htake : piece.take count = piece := List.take_of_length_le (by omega)
          rw [if_pos hlt, hfill, List.take_append, htake]
          exact ⟨rest, by rw [List.append_assoc], .piece hpiece htakes⟩
        · rw [if_neg hlt, List.take_append_of_le_length (by omega)]
          exact ⟨_, rfl, takes_putBack hpos (by omega)⟩

/-- Where fewer bytes arrive than are wanted, reading them ends as the stream does. -/
theorem fill_cutShort (h : (arrived deliveries).length < count) :
    fill count got deliveries = cutShort deliveries := by
  have hcount : ¬ count = 0 := by omega
  induction deliveries generalizing count got with
  | nil => rw [fill, if_neg hcount]; rfl
  | cons delivery more ih =>
    cases delivery with
    | closed => rw [fill, if_neg hcount]; rfl
    | failed reason => rw [fill, if_neg hcount]; rfl
    | pause =>
      rw [fill, if_neg hcount]
      exact ih h hcount
    | bytes piece =>
      rw [fill, if_neg hcount]
      by_cases hempty : piece.isEmpty = true
      · simp only [cutShort, ending, errorOf, if_pos hempty]
      · have hpiece : piece ≠ [] := by rwa [List.isEmpty_iff] at hempty
        rw [arrived_piece hpiece, List.length_append] at h
        have hlt : piece.length < count := by omega
        simp only [if_neg hempty, if_pos hlt]
        rw [cutShort, ending_piece hpiece]
        exact ih (by omega) (by omega)

theorem cutShort_ne_done {α : Type} {value : α} : cutShort deliveries ≠ .done value rest := by
  cases h : ending deliveries <;> simp [cutShort, h]

theorem readHeader_takes (hlength : headerLength ≤ (arrived deliveries).length)
    (hparse : parseHeader ((arrived deliveries).take headerLength) = .ok count) : ∃ rest,
    readHeader deliveries = .done count rest ∧
      Takes deliveries ((arrived deliveries).take headerLength) rest := by
  obtain ⟨rest, hfill, htakes⟩ := fill_takes deliveries headerLength [] hlength
  refine ⟨rest, ?_, htakes⟩
  rw [readHeader, hfill, List.nil_append]
  simp only [Reading.andThen, hparse]

/-- A frame that arrives is read, and nothing behind it is touched. -/
theorem read_takes (hlength : headerLength + count ≤ (arrived deliveries).length)
    (hparse : parseHeader ((arrived deliveries).take headerLength) = .ok count) : ∃ rest,
    read deliveries = .done (((arrived deliveries).drop headerLength).take count) rest ∧
      Takes deliveries ((arrived deliveries).take (headerLength + count)) rest := by
  obtain ⟨behind, hheader, htakes⟩ := readHeader_takes (by omega) hparse
  have hbehind := arrived_of_takes_take htakes
  obtain ⟨rest, hfill, htakes'⟩ := fill_takes behind count [] (by
    rw [hbehind, List.length_drop]
    omega)
  rw [hbehind] at hfill htakes'
  refine ⟨rest, ?_, ?_⟩
  · rw [read, hheader]
    exact hfill
  · rw [List.take_add]
    exact takes_append htakes htakes'

theorem read_header_cutShort (h : (arrived deliveries).length < headerLength) :
    read deliveries = cutShort deliveries := by
  have hfill : fill headerLength [] deliveries = cutShort deliveries := fill_cutShort h
  rw [read, readHeader, hfill]
  cases hending : ending deliveries <;> simp [cutShort, hending, Reading.andThen]

theorem read_payload_cutShort (hlength : headerLength ≤ (arrived deliveries).length)
    (hparse : parseHeader ((arrived deliveries).take headerLength) = .ok count)
    (h : (arrived deliveries).length < headerLength + count) :
    read deliveries = cutShort deliveries := by
  obtain ⟨behind, hheader, htakes⟩ := readHeader_takes hlength hparse
  have hbehind : (arrived behind).length < count := by
    rw [arrived_of_takes_take htakes, List.length_drop]
    omega
  have hfill : fill count [] behind = cutShort behind := fill_cutShort hbehind
  rw [cutShort, ending_of_takes htakes] at hfill
  rw [read, hheader]
  exact hfill

theorem read_refused {error : FrameError} (hlength : headerLength ≤ (arrived deliveries).length)
    (hparse : parseHeader ((arrived deliveries).take headerLength) = .error error) : ∃ rest,
    read deliveries = .failed error rest ∧
      Takes deliveries ((arrived deliveries).take headerLength) rest := by
  obtain ⟨rest, hfill, htakes⟩ := fill_takes deliveries headerLength [] hlength
  refine ⟨rest, ?_, htakes⟩
  rw [read, readHeader, hfill, List.nil_append]
  simp only [Reading.andThen, hparse]

/-- A payload that is read is the one that the header announces, and all of it has arrived. -/
theorem arrived_of_read {payload : List UInt8} (h : read deliveries = .done payload rest) :
    headerLength + payload.length ≤ (arrived deliveries).length ∧
      parseHeader ((arrived deliveries).take headerLength) = .ok payload.length := by
  rcases Nat.lt_or_ge (arrived deliveries).length headerLength with hshort | hlength
  · exact absurd ((read_header_cutShort hshort).symm.trans h) cutShort_ne_done
  cases hparse : parseHeader ((arrived deliveries).take headerLength) with
  | error error =>
    obtain ⟨_, hread, -⟩ := read_refused hlength hparse
    cases hread.symm.trans h
  | ok count =>
    rcases Nat.lt_or_ge (arrived deliveries).length (headerLength + count) with hshort | hwhole
    · exact absurd ((read_payload_cutShort hlength hparse hshort).symm.trans h) cutShort_ne_done
    · obtain ⟨_, hread, -⟩ := read_takes hwhole hparse
      cases hread.symm.trans h
      have hcount : (((arrived deliveries).drop headerLength).take count).length = count := by
        rw [List.length_take, List.length_drop]
        omega
      rw [hcount]
      exact ⟨hwhole, rfl⟩

end

structure Begins (bytes header payload rest : List UInt8) : Prop where
  eq : bytes = header ++ payload ++ rest
  length_header : header.length = headerLength
  announces : parseHeader header = .ok payload.length

section

variable {deliveries rest : List Delivery} {header payload behind : List UInt8}

theorem begins_framed (h : payload.length ≤ maxPayload) (rest : List UInt8) :
    Begins (framed payload ++ rest) (hexDigits headerLength payload.length) payload rest :=
  ⟨rfl, length_hexDigits _ _, parseHeader_hexDigits h⟩

/-- The frame that a stream begins with is read, and what is behind it is left. -/
theorem read_of_begins (h : Begins (arrived deliveries) header payload behind) :
    ∃ rest, read deliveries = .done payload rest ∧ arrived rest = behind ∧
      ending rest = ending deliveries := by
  have hheader : (arrived deliveries).take headerLength = header := by
    rw [h.eq, List.append_assoc, List.take_left' h.length_header]
  have hpayload : (arrived deliveries).drop headerLength = payload ++ behind := by
    rw [h.eq, List.append_assoc, List.drop_left' h.length_header]
  have hlength : headerLength + payload.length ≤ (arrived deliveries).length := by
    rw [h.eq, List.length_append, List.length_append, h.length_header]
    omega
  obtain ⟨rest, hread, htakes⟩ := read_takes hlength (hheader ▸ h.announces)
  rw [hpayload, List.take_left] at hread
  refine ⟨rest, hread, ?_, ending_of_takes htakes⟩
  rw [arrived_of_takes_take htakes, ← List.drop_drop, hpayload, List.drop_left]

theorem begins_of_read (h : read deliveries = .done payload rest) :
    ∃ header, Begins (arrived deliveries) header payload (arrived rest) := by
  obtain ⟨hlength, hparse⟩ := arrived_of_read h
  obtain ⟨_, hread, htakes⟩ := read_takes hlength hparse
  rw [h] at hread
  injection hread with hpayload hrest
  have hbytes := arrived_of_takes htakes
  rw [List.take_add, ← hpayload, ← hrest] at hbytes
  exact ⟨_, hbytes, List.length_take_of_le (Nat.le_of_add_right_le hlength), hparse⟩

end

end SlimeServer.Frame
