import SlimeServer.Proofs.FrameStream
/-!
# The frames of a byte stream

Which frames a stream holds is settled by its bytes: six hexadecimal digits, then as many bytes as
they announce, again and again, up to the place where no whole frame begins. They are read from any
deliveries of these bytes, whether the stream ends, breaks off or goes on there.
-/
namespace SlimeServer.Frame

inductive Frames : List UInt8 → List (List UInt8) → Prop
  | none {bytes} (h : ∀ header payload rest, ¬ Begins bytes header payload rest) : Frames bytes []
  | frame {bytes header payload rest payloads} (h : Begins bytes header payload rest)
    (hrest : Frames rest payloads) : Frames bytes (payload :: payloads)

section

variable {bytes header payload rest : List UInt8}

theorem Begins.unique {header' payload' rest' : List UInt8} (h : Begins bytes header payload rest)
    (h' : Begins bytes header' payload' rest') : payload = payload' ∧ rest = rest' := by
  have hbytes := h.eq.symm.trans h'.eq
  rw [List.append_assoc, List.append_assoc] at hbytes
  obtain ⟨rfl, hbehind⟩ :=
    List.append_inj hbytes (h.length_header.trans h'.length_header.symm)
  have hlength : payload.length = payload'.length :=
    Except.ok.inj (h.announces.symm.trans h'.announces)
  exact List.append_inj hbehind hlength

theorem Frames.unique {payloads payloads' : List (List UInt8)} (h : Frames bytes payloads)
    (h' : Frames bytes payloads') : payloads = payloads' := by
  induction h generalizing payloads' with
  | none hnone =>
    cases h' with
    | none _ => rfl
    | frame hbegins _ => exact absurd hbegins (hnone _ _ _)
  | frame hbegins hrest ih =>
    cases h' with
    | none hnone => exact absurd hbegins (hnone _ _ _)
    | frame hbegins' hrest' =>
      obtain ⟨rfl, rfl⟩ := hbegins.unique hbegins'
      rw [ih hrest']

/-- Frames that are written one after another are the frames of their bytes. -/
theorem frames_flatMap_framed {payloads : List (List UInt8)}
    (h : ∀ payload ∈ payloads, payload.length ≤ maxPayload) :
    Frames (payloads.flatMap framed) payloads := by
  induction payloads with
  | nil =>
    refine .none fun header payload rest hbegins => ?_
    have hlength := congrArg List.length hbegins.eq
    rw [List.flatMap_nil, List.length_nil, List.length_append, List.length_append,
      hbegins.length_header, headerLength] at hlength
    omega
  | cons payload more ih =>
    rw [List.flatMap_cons]
    exact .frame (begins_framed (h payload (List.mem_cons_self ..)) _)
      (ih fun other hother => h other (List.mem_cons_of_mem payload hother))

end

section

variable {deliveries rest : List Delivery} {payload : List UInt8}

theorem readAll_of_done (h : read deliveries = .done payload rest) :
    (readAll deliveries).1 = payload :: (readAll rest).1 := by
  rw [readAll]
  split <;> simp_all

theorem readAll_of_not_done (h : ∀ payload rest, read deliveries ≠ .done payload rest) :
    (readAll deliveries).1 = [] := by
  rw [readAll]
  split <;> simp_all

theorem frames_readAll (deliveries : List Delivery) :
    Frames (arrived deliveries) (readAll deliveries).1 := by
  by_cases hdone : ∃ payload rest, read deliveries = .done payload rest
  · obtain ⟨payload, rest, hread⟩ := hdone
    obtain ⟨header, hbegins⟩ := begins_of_read hread
    rw [readAll_of_done hread]
    exact .frame hbegins (frames_readAll rest)
  · rw [readAll_of_not_done fun payload rest hread => hdone ⟨payload, rest, hread⟩]
    refine .none fun header payload more hbegins => ?_
    obtain ⟨rest, hread, -⟩ := read_of_begins hbegins
    exact hdone ⟨payload, rest, hread⟩
termination_by volume deliveries
decreasing_by exact volume_read hread

theorem readAll_of_frames {payloads : List (List UInt8)}
    (h : Frames (arrived deliveries) payloads) : (readAll deliveries).1 = payloads :=
  (frames_readAll deliveries).unique h

end

end SlimeServer.Frame
