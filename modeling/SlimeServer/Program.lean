import SlimeServer.Address
import SlimeServer.CommandLine
import SlimeServer.Config.Load
import SlimeServer.Editor.Server
/-!
# Runs of the program

A run reads its command line and its configuration, starts an evaluator and serves editors. An
evaluator that cannot be started does not keep it from serving.
-/
namespace SlimeServer.Program

open CommandLine (UsageError Invocation)

structure Files where
  userPath : String
  user : Config.FileState
  named : String → Config.FileState

def shown : UsageError → String
  | .displayHelp => CommandLine.helpText
  | .displayVersion => CommandLine.versionText
  | _ => ""

def configure (files : Files) (invocation : Invocation) : Config.Settings × List Config.Event :=
  Config.load Config.Layer.parse files.userPath files.user (invocation.config.getD "")
    (invocation.config.map files.named) invocation.overrides

def announcement (port : Nat) : String := s!";; Swank started at port: {port}."

/-- How a run came out: its exit code, whether it announced a port, what it printed, and what
became of the connections to it. -/
structure Outcome where
  exitCode : Nat
  listening : Bool
  output : String
  connections : List Connection
  deriving DecidableEq, Repr

/-- A run over the given connections. Once they are served, it ends if it was asked to stop or is
interrupted; else it waits for more without end. -/
def run {σ : Type} (site : Site σ) (files : Files) (args : List String)
    (connections : List (List Delivery)) (interrupted : Bool) : Except (Stop Empty) Outcome :=
  match CommandLine.parse args with
  | .error error => .ok ⟨error.exitCode, false, shown error, []⟩
  | .ok invocation =>
    let (settings, _) := configure files invocation
    if Address.canListen settings.host then
      match Session.launch site (.start settings) with
      | (.error .stalled, _) => .error .stalled
      | (_, s) =>
        match Session.serve site s connections with
        | (_, .error stop, _) => .error stop
        | (served, .ok (), s) =>
          if s.stopping || interrupted then .ok ⟨0, true, "", served⟩ else .error .stalled
    else .ok ⟨1, false, "", []⟩

end SlimeServer.Program
