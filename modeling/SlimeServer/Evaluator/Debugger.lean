import SlimeServer.Report
/-!
# Debugger levels

Every failed request opens a debugger level inside those already open. Levels count from one, and
a level is closed together with all levels inside it.
-/
namespace SlimeServer

/-- The restarts offered at every level, in the order of their numbers. -/
inductive Recovery where
  | quit
  | resume
  | restart
  deriving DecidableEq, Repr

namespace Recovery

def all : List Recovery := [quit, resume, restart]

def ofIndex? (index : Int) : Option Recovery :=
  if index < 0 then none else all[index.toNat]?

def name : Recovery → String
  | quit => "QUIT"
  | resume => "CONTINUE"
  | restart => "RESTART"

def description : Recovery → String
  | quit => "Quit to the SLIME top level"
  | resume => "Ignore the error and continue in the same stack level"
  | restart => "Restart the evaluator process"

def allToSexp : Sexp :=
  .list (all.map fun r => .list [.string r.name, .string r.description])

end Recovery

structure DebuggerLevel where
  level : Nat
  callId : Int64
  message : String
  frames : List StackFrame
  fatal : Bool
  deriving DecidableEq, Repr

/-- The open levels, the innermost last. -/
structure Debugger where
  levels : List DebuggerLevel
  deriving DecidableEq, Repr

namespace Debugger

def empty : Debugger := ⟨[]⟩

def depth (d : Debugger) : Nat := d.levels.length

def isEmpty (d : Debugger) : Bool := d.levels.isEmpty

def nextLevel (d : Debugger) (callId : Int64) (report : Report) : DebuggerLevel :=
  ⟨d.depth + 1, callId, report.message, report.frames, report.fatal⟩

def push (d : Debugger) (callId : Int64) (report : Report) : Debugger :=
  ⟨d.levels ++ [d.nextLevel callId report]⟩

def get? (d : Debugger) (level : Nat) : Option DebuggerLevel :=
  match level with
  | 0 => none
  | i + 1 => d.levels[i]?

def closeFrom (d : Debugger) (level : Nat) : Debugger :=
  if 1 ≤ level ∧ level ≤ d.depth then ⟨d.levels.take (level - 1)⟩ else d

/-- Closes a level together with those inside it and hands it back. Where it is not open, nothing
is closed. -/
def take (d : Debugger) (level : Nat) : Option DebuggerLevel × Debugger :=
  if level = 0 ∨ d.depth < level then (none, d)
  else
    let (outside, closed) := d.levels.splitAt (level - 1)
    (closed.head?, ⟨outside⟩)

def innermost? (d : Debugger) : Option DebuggerLevel := d.levels.getLast?

theorem take_eq (d : Debugger) (level : Nat) :
    d.take level = (d.get? level, d.closeFrom level) := by
  cases level with
  | zero => simp [take, get?, closeFrom]
  | succ i =>
    rcases Nat.lt_or_ge i d.depth with hi | hi
    · have hopen : ¬ (i + 1 = 0 ∨ d.depth < i + 1) := by omega
      simp only [take, if_neg hopen, get?, closeFrom, List.splitAt_eq, List.head?_drop,
        Nat.add_sub_cancel]
      rw [if_pos ⟨by omega, hi⟩]
    · have hmissing : d.levels[i]? = none := List.getElem?_eq_none hi
      simp only [take, get?, closeFrom, hmissing]
      rw [if_pos (by omega), if_neg (by omega)]

end Debugger
end SlimeServer
