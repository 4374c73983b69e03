import SlimeServer.Report
/-!
# The evaluator process

The states of a process, how its end is described, and the names of signals.
-/
namespace SlimeServer

/-- The life of a process. One that has ended has an exit code or was ended by a signal; neither
is known where waiting for it failed. -/
inductive ProcessState where
  | starting
  | running
  | exited (code signal : Option Int)
  deriving DecidableEq, Repr

namespace ProcessState

def signalNames : List String :=
  ["SIGHUP", "SIGINT", "SIGQUIT", "SIGILL", "SIGTRAP", "SIGABRT", "SIGBUS", "SIGFPE", "SIGKILL",
    "SIGUSR1", "SIGSEGV", "SIGUSR2", "SIGPIPE", "SIGALRM", "SIGTERM", "SIGSTKFLT", "SIGCHLD",
    "SIGCONT", "SIGSTOP", "SIGTSTP", "SIGTTIN", "SIGTTOU", "SIGURG", "SIGXCPU", "SIGXFSZ",
    "SIGVTALRM", "SIGPROF", "SIGWINCH", "SIGIO", "SIGPWR", "SIGSYS"]

def signalName (number : Int) : String :=
  if number < 1 then s!"unknown signal {number}"
  else (signalNames[number.toNat - 1]?).getD s!"unknown signal {number}"

def isExited : ProcessState → Bool
  | exited _ _ => true
  | _ => false

def exitReason? : ProcessState → Option String
  | exited _ (some signal) =>
    some s!"Process exited with signal {signal} ({signalName signal})"
  | exited (some code) none => some s!"Process exited with code {code}"
  | exited none none => some "Process exited"
  | _ => none

/-- The state that a wait status of the system reports. The low seven bits are zero after an exit
and hold the signal otherwise; all of them set mean a process that was only stopped. -/
def ofWaitStatus (status : Int) : ProcessState :=
  let low := (status % 128).toNat
  if low = 0 then exited (some (status / 256 % 256)) none
  else if low < 127 then exited none (some low)
  else exited none none

def loss? (state : ProcessState) : Option Report := state.exitReason?.map Report.lost

end ProcessState
end SlimeServer
