import SlimeServer.Program
import SlimeServer.Script
/-!
# The program

Serves one editor on the standard input and output. No evaluator can be started from here, so
operations that need one open the debugger.
-/
namespace SlimeServer.Program

/-- What a file that cannot be read counts as. The first two cases are a path that leads nowhere
and a directory. -/
def readFault : IO.Error → Config.FileState
  | .noFileOrDirectory _ _ _ => .missing
  | .inappropriateType _ 21 details => .unreadable s!"{details} (os error 21)"
  | .inappropriateType _ _ _ => .missing
  | .permissionDenied _ code details => .unreadable s!"{details} (os error {code})"
  | error => .unreadable error.toString

def readFile (path : String) : IO Config.FileState := do
  try return .bytes (← IO.FS.readBinFile path).toList
  catch error => return readFault error

def findFiles (invocation : CommandLine.Invocation) : IO Files := do
  let home := (← IO.getEnv "HOME").getD ""
  let userPath := Config.userPath (← IO.getEnv "XDG_CONFIG_HOME") home
  let user ← readFile userPath
  let named ← match invocation.config with
    | some path => readFile path
    | none => pure .missing
  return ⟨userPath, user, fun _ => named⟩

/-- Handles one payload and writes the frames that answer it. -/
def answer {σ : Type} (site : Site σ) (s : Session σ) (payload : List UInt8) :
    IO (Session σ) := do
  let (_, x) := handlePayload site payload ⟨s, []⟩
  let output ← IO.getStdout
  for frame in framesOf x.sent do
    output.write ⟨frame.toArray⟩
  output.flush
  return x.session

/-- Serves the editor; `pending` has been read and holds no whole frame yet. -/
partial def converse {σ : Type} (site : Site σ) (s : Session σ) (pending : List UInt8) :
    IO Unit := do
  if s.stopping then return
  match Frame.read [.bytes pending] with
  | .done payload rest => converse site (← answer site s payload) (Peer.bytesOf rest)
  | .failed (.invalidHeader _) _ => return
  | _ =>
    let more ← (← IO.getStdin).read 4096
    if more.isEmpty then return
    converse site s (pending ++ more.toList)

end SlimeServer.Program

open SlimeServer in
def main (args : List String) : IO UInt32 := do
  match CommandLine.parse args with
  | .error error =>
    IO.print (Program.shown error)
    return UInt32.ofNat error.exitCode
  | .ok invocation =>
    let (settings, events) := Program.configure (← Program.findFiles invocation) invocation
    for event in events do
      IO.eprintln event.message
    let site := Script.site [] false 0
    let (_, s) := Session.launch site (.start settings)
    IO.eprintln (Program.announcement settings.port)
    Program.converse site s []
    return 0
