import SlimeServer.Frame
/-!
# Reading the evaluator's output

The reader queues every piece that it reads, in order. While the process lives, reads that bring
nothing, fail or take too long are tried again. Once the process has exited, what it wrote before is
still read, in at most sixty-four reads, up to the first read that brings nothing.
-/
namespace SlimeServer.Output

/-- What happens around the reader. The exit of the process and the closing of the queue happen
when a read comes to them, and the same read goes on to the next event. A read that is given up has
taken nothing, so an exit between two reads is one that happens during a read given up then. -/
inductive Event where
  | delivery (d : Delivery)
  /-- A poll interval passes, and the read that waits is given up. -/
  | timeout
  | exit
  | close
  deriving DecidableEq, Repr

/-- How reads end after the last event: they find nothing, or the end of the stream. -/
inductive Ending where
  | silent
  | closed
  deriving DecidableEq, Repr

inductive Read where
  | piece (bytes : List UInt8)
  | none
  | failed
  | pending
  deriving DecidableEq, Repr

/-- A reader: the size of its buffer, the events to come, what it has queued (newest first), and
whether the process has exited and the queue is closed. -/
structure Reader where
  size : Nat
  size_pos : 0 < size
  events : List Event
  ending : Ending
  queue : List (List UInt8)
  exited : Bool
  closed : Bool
  deriving DecidableEq, Repr

def maxDrainReads : Nat := 64

/-- What is left of a piece after a read of `size` bytes. -/
def leave (size : Nat) (piece : List UInt8) (events : List Event) : List Event :=
  let rest := piece.drop size
  if rest.isEmpty then events else .delivery (.bytes rest) :: events

def Reader.read (r : Reader) : List Event → Read × Reader
  | [] => (match r.ending with | .silent => .pending | .closed => .none, { r with events := [] })
  | .timeout :: rest => (.pending, { r with events := rest })
  | .exit :: rest => Reader.read { r with exited := true } rest
  | .close :: rest => Reader.read { r with closed := true } rest
  | .delivery .pause :: rest => Reader.read r rest
  | .delivery .closed :: rest => (.none, { r with events := rest })
  | .delivery (.failed _) :: rest => (.failed, { r with events := rest })
  | .delivery (.bytes piece) :: rest =>
    if piece.isEmpty then (.none, { r with events := rest })
    else (.piece (piece.take r.size), { r with events := leave r.size piece rest })

def Reader.enqueue (r : Reader) (piece : List UInt8) : Option Reader :=
  if r.closed then none else some { r with queue := piece :: r.queue }

/-- The reads after the exit, at most `count` of them. -/
def Reader.drain : Nat → Reader → Reader
  | 0, r => r
  | count + 1, r =>
    match r.read r.events with
    | (.piece bytes, r) => match r.enqueue bytes with
      | some r => drain count r
      | none => r
    | (_, r) => r

/-- The bytes and events that are still to come, each counted once. -/
def supply : List Event → Nat
  | [] => 0
  | .delivery (.bytes piece) :: rest => piece.length + 1 + supply rest
  | _ :: rest => 1 + supply rest

theorem supply_leave {size : Nat} {piece : List UInt8} {events : List Event} (hs : 0 < size)
    (hp : piece ≠ []) : supply (leave size piece events) < piece.length + 1 + supply events := by
  have := List.length_pos_iff.2 hp
  simp only [leave]
  split
  · omega
  · simp only [supply, List.length_drop]
    omega

/-- A read passes something unless no event is left. -/
theorem Reader.supply_read (r : Reader) (events : List Event) (he : events ≠ []) :
    supply (r.read events).2.events < supply events := by
  induction events generalizing r with
  | nil => exact absurd rfl he
  | cons e rest ih =>
    have step : ∀ r' : Reader, supply (r'.read rest).2.events < 1 + supply rest := by
      intro r'
      by_cases hr : rest = []
      · subst hr; simp [read, supply]
      · have := ih r' hr
        omega
    cases e with
    | timeout => simp only [read, supply]; omega
    | exit => simp only [read, supply]; exact step _
    | close => simp only [read, supply]; exact step _
    | delivery d =>
      cases d with
      | pause => simp only [read, supply]; exact step _
      | closed => simp only [read, supply]; omega
      | failed reason => simp only [read, supply]; omega
      | bytes piece =>
        simp only [read, supply]
        split
        · dsimp only; omega
        · rename_i hp
          exact supply_leave r.size_pos (by simpa using hp)

theorem Reader.events_enqueue {r r' : Reader} {piece : List UInt8}
    (h : r.enqueue piece = some r') : r'.events = r.events := by
  simp only [enqueue] at h
  split at h
  · cases h
  · cases h
    rfl

/-- Reads until the process has exited and its last output is taken, or the queue is closed. The
answer tells whether the reader stops: it does not when the process lives on in silence. -/
def Reader.run (r : Reader) : Reader × Bool :=
  if r.exited then (r.drain maxDrainReads, true)
  else if _he : r.events = [] then (r, false)
  else
    match _hr : r.read r.events with
    | (.piece bytes, next) =>
      match _hq : next.enqueue bytes with
      | some next' => next'.run
      | none => (next, true)
    | (_, next) => next.run
termination_by supply r.events
decreasing_by
  · have := r.supply_read r.events _he
    rw [events_enqueue _hq]
    simpa only [_hr] using this
  · have := r.supply_read r.events _he
    simpa only [_hr] using this

def Reader.start (size : Nat) (events : List Event) (ending : Ending) (exited : Bool) : Reader :=
  ⟨max size 1, by omega, events, ending, [], exited, false⟩

def collect (size : Nat) (events : List Event) (ending : Ending) (exited : Bool) :
    List (List UInt8) × List Event × Bool :=
  let (r, stopped) := (Reader.start size events ending exited).run
  (r.queue.reverse, r.events, stopped)

end SlimeServer.Output
