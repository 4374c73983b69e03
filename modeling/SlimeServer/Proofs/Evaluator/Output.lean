import SlimeServer.Evaluator.Output
/-!
# What the output reader queues

The reader queues what it reads, in order and as it was read, and all that it reads is queued but
for one piece that comes when the queue is closed. It comes to rest only when the process has exited
or the queue is closed, after the exit in a bounded number of reads. So the last output of a process
is delivered exactly if it can be read in that many pieces.
-/
namespace SlimeServer.Output

def data : List Event → List UInt8
  | [] => []
  | .delivery (.bytes piece) :: rest => piece ++ data rest
  | _ :: rest => data rest

namespace Read

/-- The piece that a read brings. A read that finds nothing, fails or is given up brings none. -/
def piece? : Read → Option (List UInt8)
  | .piece bytes => some bytes
  | _ => Option.none

theorem eq_piece_of_piece? {got : Read} {bytes : List UInt8} (h : got.piece? = some bytes) :
    got = .piece bytes := by
  cases got with
  | piece bytes' => rw [Option.some.inj h]
  | _ => cases h

end Read

theorem data_leave (size : Nat) (piece : List UInt8) (events : List Event) :
    data (leave size piece events) = piece.drop size ++ data events := by
  simp only [leave]
  split
  · rename_i hrest
    rw [List.isEmpty_iff.1 hrest, List.nil_append]
  · rfl

namespace Reader

/-- What a read does: it takes a piece that is no longer than the buffer from the front of the data,
or nothing of it. -/
structure Passes (r : Reader) (got : Read) (next : Reader) : Prop where
  data_eq : data r.events = got.piece?.getD [] ++ data next.events
  sized : ∀ piece ∈ got.piece?, piece ≠ [] ∧ piece.length ≤ r.size
  size_eq : next.size = r.size
  queue_eq : next.queue = r.queue
  exited : r.exited = true → next.exited = true

theorem passes_of_none {r next : Reader} {got : Read} (hgot : got.piece? = none)
    (hdata : data next.events = data r.events) (hsize : next.size = r.size)
    (hqueue : next.queue = r.queue) (hexited : r.exited = true → next.exited = true) :
    r.Passes got next where
  data_eq := by rw [hgot, hdata]; rfl
  sized := by rw [hgot]; exact fun _ h => absurd h (Option.not_mem_none _)
  size_eq := hsize
  queue_eq := hqueue
  exited := hexited

theorem passes_read (r : Reader) (events : List Event) :
    Passes { r with events := events } (r.read events).1 (r.read events).2 := by
  induction events generalizing r with
  | nil =>
    rw [read]
    cases r.ending <;> exact passes_of_none rfl rfl rfl rfl id
  | cons event rest ih =>
    cases event with
    | timeout => exact passes_of_none rfl rfl rfl rfl id
    | exit =>
      obtain ⟨hdata, hsized, hsize, hqueue, hexited⟩ := ih { r with exited := true }
      exact ⟨hdata, hsized, hsize, hqueue, fun _ => hexited rfl⟩
    | close =>
      obtain ⟨hdata, hsized, hsize, hqueue, hexited⟩ := ih { r with closed := true }
      exact ⟨hdata, hsized, hsize, hqueue, hexited⟩
    | delivery d =>
      cases d with
      | pause =>
        obtain ⟨hdata, hsized, hsize, hqueue, hexited⟩ := ih r
        exact ⟨hdata, hsized, hsize, hqueue, hexited⟩
      | closed => exact passes_of_none rfl rfl rfl rfl id
      | failed reason => exact passes_of_none rfl rfl rfl rfl id
      | bytes piece =>
        rw [read]
        split
        · rename_i hempty
          rw [List.isEmpty_iff.1 hempty]
          exact passes_of_none rfl rfl rfl rfl id
        · rename_i hpiece
          have hne : piece.take r.size ≠ [] := by
            rw [Ne, List.take_eq_nil_iff, not_or]
            exact ⟨Nat.pos_iff_ne_zero.1 r.size_pos, by rwa [List.isEmpty_iff] at hpiece⟩
          refine ⟨?_, ?_, rfl, rfl, id⟩
          · rw [data_leave, Read.piece?, Option.getD_some, ← List.append_assoc,
              List.take_append_drop]
            rfl
          · rintro _ ⟨⟩
            exact ⟨hne, List.length_take_le _ _⟩

variable {r next last : Reader} {got : Read} {bytes : List UInt8}

theorem passes_of_read (h : r.read r.events = (got, next)) : r.Passes got next := by
  have hpasses := r.passes_read r.events
  rwa [h] at hpasses

theorem enqueue_eq_some_iff : r.enqueue bytes = some next ↔
    r.closed = false ∧ next = { r with queue := bytes :: r.queue } := by
  rw [enqueue]
  cases r.closed <;> simp [eq_comm]

theorem enqueue_eq_none_iff : r.enqueue bytes = none ↔ r.closed = true := by
  rw [enqueue]
  cases r.closed <;> simp

theorem drain_of_piece {kept : Reader} (count : Nat)
    (hread : r.read r.events = (.piece bytes, next)) (hkept : next.enqueue bytes = some kept) :
    r.drain (count + 1) = kept.drain count := by
  simp only [drain, hread, hkept]

theorem drain_of_closed (count : Nat) (hread : r.read r.events = (.piece bytes, next))
    (hclosed : next.closed = true) : r.drain (count + 1) = next := by
  simp only [drain, hread, enqueue_eq_none_iff.2 hclosed]

theorem drain_of_none (count : Nat) (hread : r.read r.events = (got, next))
    (hgot : got.piece? = none) : r.drain (count + 1) = next := by
  cases got with
  | piece bytes => cases hgot
  | _ => simp only [drain, hread]

/-- Reads in a row, each begun before the exit of the process was noticed, or each begun after it,
and what they brought. Every piece is queued. -/
inductive Reads (exited : Bool) : Reader → List Read → Reader → Prop
  | none {r : Reader} : Reads exited r [] r
  | piece {r next kept last : Reader} {bytes : List UInt8} {gots : List Read}
    (hexited : r.exited = exited) (hread : r.read r.events = (.piece bytes, next))
    (hkept : next.enqueue bytes = some kept) (hrest : Reads exited kept gots last) :
    Reads exited r (.piece bytes :: gots) last
  | pass {r next last : Reader} {got : Read} {gots : List Read} (hexited : r.exited = exited)
    (hread : r.read r.events = (got, next)) (hgot : got.piece? = Option.none)
    (hrest : Reads exited next gots last) : Reads exited r (got :: gots) last

def pieces (gots : List Read) : List (List UInt8) := gots.filterMap Read.piece?

theorem pieces_map_piece (drained : List (List UInt8)) :
    pieces (drained.map .piece) = drained := by
  rw [pieces, List.filterMap_map]
  exact List.filterMap_some

section

variable {exited : Bool} {gots : List Read}

/-- What reads in a row add to the queue is what they take from the data, in pieces that are not
empty and fit into the buffer. -/
structure Conveys (r : Reader) (taken : List (List UInt8)) (last : Reader) : Prop where
  queued : last.queue.reverse = r.queue.reverse ++ taken
  data_eq : data r.events = taken.flatten ++ data last.events
  sized : ∀ piece ∈ taken, piece ≠ [] ∧ piece.length ≤ r.size
  size_eq : last.size = r.size

theorem Conveys.trans {mid : Reader} {taken taken' : List (List UInt8)}
    (h : r.Conveys taken mid) (h' : mid.Conveys taken' last) :
    r.Conveys (taken ++ taken') last where
  queued := by rw [h'.queued, h.queued, List.append_assoc]
  data_eq := by rw [h.data_eq, h'.data_eq, List.flatten_append, List.append_assoc]
  sized := by
    have hsized' := h'.sized
    rw [h.size_eq] at hsized'
    exact List.forall_mem_append.2 ⟨h.sized, hsized'⟩
  size_eq := h'.size_eq.trans h.size_eq

theorem Passes.conveys (h : r.Passes got next) (hgot : got.piece? = none) :
    r.Conveys [] next where
  queued := by rw [h.queue_eq, List.append_nil]
  data_eq := by rw [h.data_eq, hgot]; rfl
  sized := nofun
  size_eq := h.size_eq

theorem Passes.conveys_piece {kept : Reader} (h : r.Passes (.piece bytes) next)
    (hkept : next.enqueue bytes = some kept) : r.Conveys [bytes] kept := by
  obtain ⟨-, rfl⟩ := enqueue_eq_some_iff.1 hkept
  refine ⟨?_, ?_, ?_, h.size_eq⟩
  · rw [List.reverse_cons, h.queue_eq]
  · rw [List.flatten_singleton]
    exact h.data_eq
  · intro piece hpiece
    rw [List.mem_singleton.1 hpiece]
    exact h.sized bytes rfl

theorem Reads.conveys (h : Reads exited r gots last) : r.Conveys (pieces gots) last := by
  induction h with
  | none => exact ⟨(List.append_nil _).symm, rfl, nofun, rfl⟩
  | piece hexited hread hkept _ ih =>
    exact ((passes_of_read hread).conveys_piece hkept).trans ih
  | @pass r next last got gots hexited hread hgot _ ih =>
    have hskip : pieces (got :: gots) = [] ++ pieces gots := by
      rw [pieces, List.filterMap_cons_none hgot]
      rfl
    rw [hskip]
    exact ((passes_of_read hread).conveys hgot).trans ih

end

/-- How a reader comes to rest which had come to `mid` when it last looked for the exit, has drained
these pieces since, and has come to `last`. The bytes are those of a piece that was not queued. -/
inductive Rests (mid : Reader) (drained : List (List UInt8)) (last : Reader) :
    List UInt8 → Reader → Bool → Prop
  /-- It waits on for a living process from which nothing more is to come. -/
  | waiting (hexited : mid.exited = false) (hdrained : drained = []) (hevents : last.events = []) :
    Rests mid drained last [] last false
  /-- After the exit it has read as often as it may. -/
  | exhausted (hexited : mid.exited = true) (hlength : drained.length = maxDrainReads) :
    Rests mid drained last [] last true
  /-- After the exit a read brings no piece. -/
  | dry {got : Read} {left : Reader} (hexited : mid.exited = true)
    (hread : last.read last.events = (got, left)) (hgot : got.piece? = Option.none) :
    Rests mid drained last [] left true
  /-- A piece comes when the queue is closed. -/
  | closed {bytes : List UInt8} {left : Reader}
    (hread : last.read last.events = (.piece bytes, left)) (hclosed : left.closed = true) :
    Rests mid drained last bytes left true

theorem Rests.data_eq {mid left : Reader} {drained : List (List UInt8)} {dropped : List UInt8}
    {stopped : Bool} (h : Rests mid drained last dropped left stopped) :
    data last.events = dropped ++ data left.events ∧ left.queue = last.queue := by
  cases h with
  | waiting => exact ⟨rfl, rfl⟩
  | exhausted => exact ⟨rfl, rfl⟩
  | dry hexited hread hgot =>
    have hpasses := passes_of_read hread
    exact ⟨by rw [hpasses.data_eq, hgot]; rfl, hpasses.queue_eq⟩
  | closed hread hclosed =>
    have hpasses := passes_of_read hread
    exact ⟨hpasses.data_eq, hpasses.queue_eq⟩

/-- The reads after the exit all bring pieces, up to the last. -/
theorem exists_reads_drain (count : Nat) (hexited : r.exited = true) :
    ∃ drained last dropped, r.Reads true (drained.map .piece) last ∧ drained.length ≤ count ∧
      ∀ mid : Reader, mid.exited = true → ∀ before : List (List UInt8),
        before.length + count = maxDrainReads →
          Rests mid (before ++ drained) last dropped (r.drain count) true := by
  induction count generalizing r with
  | zero =>
    refine ⟨[], r, [], .none, Nat.le_refl 0, fun mid hmid before hbefore => ?_⟩
    rw [List.append_nil]
    exact .exhausted hmid hbefore
  | succ count ih =>
    cases hread : r.read r.events with
    | mk got next =>
      cases hgot : got.piece? with
      | none =>
        refine ⟨[], r, [], .none, Nat.zero_le _, fun mid hmid before hbefore => ?_⟩
        rw [drain_of_none count hread hgot]
        exact .dry hmid hread hgot
      | some bytes =>
        obtain rfl := Read.eq_piece_of_piece? hgot
        cases hkept : next.enqueue bytes with
        | none =>
          have hclosed := enqueue_eq_none_iff.1 hkept
          refine ⟨[], r, bytes, .none, Nat.zero_le _, fun mid hmid before hbefore => ?_⟩
          rw [drain_of_closed count hread hclosed]
          exact .closed hread hclosed
        | some kept =>
          have hkexited : kept.exited = true := by
            obtain ⟨-, rfl⟩ := enqueue_eq_some_iff.1 hkept
            exact (passes_of_read hread).exited hexited
          obtain ⟨drained, last, dropped, hreads, hlength, hrests⟩ := ih hkexited
          refine ⟨bytes :: drained, last, dropped, .piece hexited hread hkept hreads,
            Nat.succ_le_succ hlength, fun mid hmid before hbefore => ?_⟩
          have hrest := hrests mid hmid (before ++ [bytes]) (by
            rw [List.length_append, List.length_singleton]
            omega)
          rw [List.append_assoc] at hrest
          rw [drain_of_piece count hread hkept]
          exact hrest

/-- A run: reads before the exit is noticed, whatever they bring, and then pieces. -/
theorem exists_reads_run (r : Reader) : ∃ living mid drained last dropped,
    r.Reads false living mid ∧ mid.Reads true (drained.map .piece) last ∧
      drained.length ≤ maxDrainReads ∧ Rests mid drained last dropped r.run.1 r.run.2 := by
  fun_induction run r with
  | case1 r hexited =>
    obtain ⟨drained, last, dropped, hreads, hlength, hrests⟩ :=
      exists_reads_drain maxDrainReads hexited
    exact ⟨[], r, drained, last, dropped, .none, hreads, hlength,
      hrests r hexited [] (Nat.zero_add _)⟩
  | case2 r hexited hevents =>
    exact ⟨[], r, [], r, [], .none, .none, Nat.zero_le _,
      .waiting (Bool.eq_false_iff.2 hexited) rfl hevents⟩
  | case3 r hexited hevents bytes next hread kept hkept ih =>
    obtain ⟨living, mid, drained, last, dropped, hliving, hrest⟩ := ih
    exact ⟨.piece bytes :: living, mid, drained, last, dropped,
      .piece (Bool.eq_false_iff.2 hexited) hread hkept hliving, hrest⟩
  | case4 r hexited hevents bytes next hread hkept =>
    exact ⟨[], r, [], r, bytes, .none, .none, Nat.zero_le _,
      .closed hread (enqueue_eq_none_iff.1 hkept)⟩
  | case5 r hexited hevents got next hgot hread ih =>
    obtain ⟨living, mid, drained, last, dropped, hliving, hrest⟩ := ih
    have hnone : got.piece? = none := by
      cases got with
      | piece bytes => exact (hgot bytes rfl).elim
      | _ => rfl
    exact ⟨got :: living, mid, drained, last, dropped,
      .pass (Bool.eq_false_iff.2 hexited) hread hnone hliving, hrest⟩

end Reader

/-- What is queued is what was read, in order and in pieces that are not empty and fit into the
buffer; the bytes of the events are those of the queue and those still to come, but for one piece
that comes when the queue is closed. The reader reads on, whatever a read brings, until it notices
the exit of the process. From then on every read brings a piece, and there are no more than
`maxDrainReads` of them: it stops when there are so many, or at the first read that brings none. It
stops for no other reason but a closed queue, and as long as it does not, nothing is left unread. -/
theorem collect_in_order (size : Nat) (events : List Event) (ending : Ending) (exited : Bool) :
    let queued := (collect size events ending exited).1
    let left := (collect size events ending exited).2.1
    let stopped := (collect size events ending exited).2.2
    ∃ (living : List Read) (mid : Reader) (drained : List (List UInt8)) (last : Reader)
      (dropped : List UInt8) (final : Reader),
      (Reader.start size events ending exited).Reads false living mid ∧
      mid.Reads true (drained.map .piece) last ∧
      drained.length ≤ maxDrainReads ∧
      Reader.Rests mid drained last dropped final stopped ∧
      left = final.events ∧
      queued = Reader.pieces living ++ drained ∧
      (∀ piece ∈ queued, piece ≠ [] ∧ piece.length ≤ max size 1) ∧
      data events = queued.flatten ++ dropped ++ data left := by
  intro queued left stopped
  obtain ⟨living, mid, drained, last, dropped, hliving, hdrained, hlength, hrests⟩ :=
    (Reader.start size events ending exited).exists_reads_run
  have hconveys := hliving.conveys.trans hdrained.conveys
  rw [Reader.pieces_map_piece] at hconveys
  obtain ⟨hdropped, hqueue⟩ := hrests.data_eq
  have hqueued : queued = Reader.pieces living ++ drained := by
    have hreverse : (Reader.start size events ending exited).run.1.queue.reverse = _ :=
      (congrArg List.reverse hqueue).trans hconveys.queued
    exact hreverse
  refine ⟨living, mid, drained, last, dropped, _, hliving, hdrained, hlength, hrests, rfl, hqueued,
    ?_, ?_⟩
  · rw [hqueued]
    exact hconveys.sized
  · rw [hqueued, List.append_assoc]
    exact hconveys.data_eq.trans (congrArg _ hdropped)

/-- Output that waits to be read, up to the end of the stream: pieces and pauses, and no read that
fails or is given up. -/
inductive Unread : List Event → List (List UInt8) → Prop
  | none : Unread [] []
  | closed {rest : List Event} : Unread (.delivery .closed :: rest) []
  | pause {events : List Event} {pieces : List (List UInt8)} (h : Unread events pieces) :
    Unread (.delivery .pause :: events) pieces
  | piece {piece : List UInt8} {events : List Event} {pieces : List (List UInt8)}
    (hpiece : piece ≠ []) (h : Unread events pieces) :
    Unread (.delivery (.bytes piece) :: events) (piece :: pieces)

/-- How many reads it takes to read pieces with a buffer of some size: the length of each divided by
the size, rounded up. -/
def readsFor (size : Nat) : List (List UInt8) → Nat
  | [] => 0
  | piece :: rest => (piece.length + size - 1) / size + readsFor size rest

theorem readsFor_drop {size : Nat} (hsize : 0 < size) {piece : List UInt8} (hpiece : piece ≠ []) :
    (piece.length + size - 1) / size = ((piece.drop size).length + size - 1) / size + 1 := by
  have hlength := List.length_pos_iff.2 hpiece
  rw [List.length_drop, ← Nat.add_div_right _ hsize]
  rcases Nat.le_total size piece.length with hle | hle
  · congr 1
    omega
  · have hshort : piece.length - size = 0 := Nat.sub_eq_zero_of_le hle
    rw [hshort, Nat.zero_add, Nat.div_eq_of_lt_le (k := 1) (by omega) (by omega),
      Nat.div_eq_of_lt_le (k := 1) (by omega) (by omega)]

theorem readsFor_eq_zero_iff {size : Nat} (hsize : 0 < size) {pieces : List (List UInt8)}
    (h : ∀ piece ∈ pieces, piece ≠ []) : readsFor size pieces = 0 ↔ pieces.flatten = [] := by
  cases pieces with
  | nil => exact ⟨fun _ => rfl, fun _ => rfl⟩
  | cons piece rest =>
    have hpiece := h piece (List.mem_cons_self ..)
    rw [readsFor, readsFor_drop hsize hpiece, List.flatten_cons, Nat.add_right_comm]
    exact ⟨fun hzero => absurd hzero (Nat.succ_ne_zero _),
      fun hnil => absurd (List.append_eq_nil_iff.1 hnil).1 hpiece⟩

theorem Unread.ne_nil {events : List Event} {pieces : List (List UInt8)}
    (h : Unread events pieces) : ∀ piece ∈ pieces, piece ≠ [] := by
  induction h with
  | none => exact nofun
  | closed => exact nofun
  | pause _ ih => exact ih
  | piece hpiece _ ih => exact List.forall_mem_cons.2 ⟨hpiece, ih⟩

/-- What is left of unread output once a buffer is filled from its first piece. -/
theorem unread_leave {size : Nat} {piece : List UInt8} {events : List Event}
    {pieces : List (List UInt8)} (hsize : 0 < size) (hpiece : piece ≠ [])
    (h : Unread events pieces) : ∃ left, Unread (leave size piece events) left ∧
      (piece :: pieces).flatten = piece.take size ++ left.flatten ∧
      readsFor size (piece :: pieces) = readsFor size left + 1 := by
  have hreads := readsFor_drop hsize hpiece
  cases hdrop : piece.drop size with
  | nil =>
    refine ⟨pieces, ?_, ?_, ?_⟩
    · simpa only [leave, hdrop, List.isEmpty_nil, if_true] using h
    · rw [List.flatten_cons, List.take_of_length_le (List.drop_eq_nil_iff.1 hdrop)]
    · rw [readsFor, hreads, hdrop, List.length_nil, Nat.zero_add,
        Nat.div_eq_of_lt (Nat.sub_lt hsize Nat.one_pos)]
      omega
  | cons b more =>
    refine ⟨(b :: more) :: pieces, ?_, ?_, ?_⟩
    · simpa only [leave, hdrop, List.isEmpty_cons, Bool.false_eq_true, if_false] using
        Unread.piece (List.cons_ne_nil b more) h
    · rw [List.flatten_cons, List.flatten_cons, ← hdrop, ← List.append_assoc,
        List.take_append_drop]
    · rw [readsFor, readsFor, hreads, hdrop]
      omega

namespace Reader

variable {r : Reader} {unread : List (List UInt8)}

/-- A read of unread output takes a piece of it; where there is none, it brings none. -/
theorem read_unread {events : List Event} (h : Unread events unread) :
    (unread = [] ∧ (r.read events).1.piece? = none) ∨ ∃ bytes later left,
      r.read events = (.piece bytes, { r with events := later }) ∧ Unread later left ∧
      unread.flatten = bytes ++ left.flatten ∧
      readsFor r.size unread = readsFor r.size left + 1 := by
  induction h with
  | none =>
    refine .inl ⟨rfl, ?_⟩
    rw [read]
    cases r.ending <;> rfl
  | closed => exact .inl ⟨rfl, rfl⟩
  | pause _ ih => exact ih
  | piece hpiece h =>
    obtain ⟨left, hleft, hflatten, hreads⟩ := unread_leave r.size_pos hpiece h
    refine .inr ⟨_, _, left, ?_, hleft, hflatten, hreads⟩
    rw [read, if_neg (by rwa [List.isEmpty_iff])]

/-- Reads of unread output bring a piece each, until there is no output or no read left. -/
theorem drain_unread (count : Nat) (hclosed : r.closed = false) (h : Unread r.events unread) :
    ∃ taken left, (r.drain count).queue.reverse = r.queue.reverse ++ taken ∧
      unread.flatten = taken.flatten ++ left.flatten ∧ (∀ piece ∈ left, piece ≠ []) ∧
      taken.length = min count (readsFor r.size unread) ∧
      readsFor r.size left = readsFor r.size unread - count := by
  induction count generalizing r unread with
  | zero => exact ⟨[], unread, (List.append_nil _).symm, rfl, h.ne_nil, (Nat.zero_min _).symm, rfl⟩
  | succ count ih =>
    rcases read_unread (r := r) h with ⟨rfl, hnone⟩ | ⟨bytes, later, left, hread, hlater, hflatten,
      hreads⟩
    · have hreads : r.drain (count + 1) = (r.read r.events).2 := drain_of_none count rfl hnone
      refine ⟨[], [], ?_, rfl, nofun, (Nat.min_zero _).symm, (Nat.zero_sub _).symm⟩
      rw [hreads, (passes_of_read rfl).queue_eq, List.append_nil]
    · obtain ⟨taken, lost, hqueue, hlost, hne, hlength, hleft⟩ :=
        ih (r := { r with events := later, queue := bytes :: r.queue }) hclosed hlater
      have hkept : ({ r with events := later } : Reader).enqueue bytes = some _ :=
        enqueue_eq_some_iff.2 ⟨hclosed, rfl⟩
      refine ⟨bytes :: taken, lost, ?_, ?_, hne, ?_, ?_⟩
      · rw [drain_of_piece count hread hkept, hqueue, List.reverse_cons, List.append_assoc]
        rfl
      · rw [hflatten, hlost, List.flatten_cons, List.append_assoc]
      · rw [List.length_cons, hlength, hreads, Nat.add_min_add_right]
      · rw [hleft, hreads, Nat.add_sub_add_right]

theorem run_of_exited (h : r.exited = true) : r.run = (r.drain maxDrainReads, true) := by
  rw [run, if_pos h]

/-- When a process has exited, the reader stops, and of the output that waits to be read it has
queued what can be read in `maxDrainReads` reads. Nothing is lost exactly if these are enough. -/
theorem run_unread (hexited : r.exited = true) (hclosed : r.closed = false)
    (h : Unread r.events unread) : r.run.2 = true ∧ ∃ taken lost,
      r.run.1.queue.reverse = r.queue.reverse ++ taken ∧
      unread.flatten = taken.flatten ++ lost ∧
      taken.length = min maxDrainReads (readsFor r.size unread) ∧
      (lost = [] ↔ readsFor r.size unread ≤ maxDrainReads) := by
  obtain ⟨taken, left, hqueue, hflatten, hne, hlength, hleft⟩ :=
    drain_unread maxDrainReads hclosed h
  rw [run_of_exited hexited]
  refine ⟨rfl, taken, left.flatten, hqueue, hflatten, hlength, ?_⟩
  rw [← readsFor_eq_zero_iff r.size_pos hne, hleft, Nat.sub_eq_zero_iff_le]

/-- A process that has printed its last words in two pieces, the first of which takes two reads. -/
def lastWords : Reader :=
  ⟨4, by decide, [.delivery (.bytes (Utf8.encode "no more")), .delivery .pause,
    .delivery (.bytes (Utf8.encode "!\n")), .delivery .closed], .silent, [], true, false⟩

theorem run_unread_lastWords : lastWords.run.2 = true ∧ ∃ taken : List (List UInt8),
    lastWords.run.1.queue.reverse = taken ∧ taken.flatten = Utf8.encode "no more!\n" ∧
      taken.length = 3 := by
  obtain ⟨hstops, taken, lost, hqueue, hflatten, hlength, hlost⟩ :=
    run_unread (r := lastWords) rfl rfl (.piece (by decide) (.pause (.piece (by decide) .closed)))
  have hnone : lost = [] := hlost.2 (by decide)
  rw [hnone, List.append_nil] at hflatten
  exact ⟨hstops, taken, hqueue, hflatten.symm, hlength.trans (by decide)⟩

end Reader

/-- With a small buffer the last byte of a short output is lost, although it waits to be read. -/
theorem last_byte_lost : ∃ (size : Nat) (output : List UInt8), 1 ≤ size ∧ output.length ≤ 65536 ∧
    Unread [.delivery (.bytes output)] [output] ∧
      (collect size [.delivery (.bytes output)] .closed true).1.flatten ≠ output := by
  refine ⟨1, List.replicate 65 120, Nat.le_refl 1, by decide, .piece (by decide) .none, ?_⟩
  have hrun := Reader.run_of_exited
    (r := .start 1 [.delivery (.bytes (List.replicate 65 120))] .closed true) rfl
  rw [collect, hrun]
  decide +kernel

end SlimeServer.Output
