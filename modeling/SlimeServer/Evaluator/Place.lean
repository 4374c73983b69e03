/-!
# Places of programs

Where the path of a program leads in a tree of files, and why the program cannot be started. No
file of the tree is a program: what a path leads to is either not there or not allowed to be run.
-/
namespace SlimeServer

inductive StartFault where
  /-- A zero byte stands in the command or in the environment. -/
  | zeroByte
  | notFound
  | permissionDenied
  /-- The path goes on behind a file. -/
  | notDirectory
  | nameTooLong
  deriving DecidableEq, Repr

def StartFault.message : StartFault → String
  | zeroByte => "nul byte found in provided data"
  | notFound => "No such file or directory (os error 2)"
  | permissionDenied => "Permission denied (os error 13)"
  | notDirectory => "Not a directory (os error 20)"
  | nameTooLong => "File name too long (os error 36)"

inductive Place where
  | file
  | directory (entries : List (String × Place))
  deriving Inhabited

namespace Place

def maxName : Nat := 255

def maxPath : Nat := 4095

/-- What comes of running what the parts of a path lead to, from a place in the directories
`above` it. -/
def follow (above : List Place) : Place → List String → StartFault
  | _, [] => .permissionDenied
  | .file, _ :: _ => .notDirectory
  | .directory entries, part :: parts =>
    if part = "" ∨ part = "." then follow above (.directory entries) parts
    else if part = ".." then
      match above with
      | [] => follow [] (.directory entries) parts
      | parent :: above => follow above parent parts
    else if maxName < part.utf8ByteSize then .nameTooLong
    else match entries.lookup part with
      | none => .notFound
      | some place => follow (.directory entries :: above) place parts

/-- What comes of running the file at a path. The program runs in a directory where nothing is. -/
def run (root : Place) (path : String) : StartFault :=
  if path = "" then .notFound
  else if maxPath < path.utf8ByteSize then .nameTooLong
  else if path.toList.head? = some '/' then follow [] root (path.splitOn "/")
  else follow [] (.directory []) (path.splitOn "/")

/-- What comes of running the first of some files that is there, where `found` came of those before
them. -/
def runFirst (root : Place) : StartFault → List String → StartFault
  | found, [] => found
  | found, path :: paths =>
    match run root path with
    | .nameTooLong => .nameTooLong
    | fault => runFirst root (if found = .permissionDenied then found else fault) paths

/-- The path of a file in a directory of the search path, where nothing stands for the directory
that the program runs in. -/
def within (directory name : String) : String :=
  if directory = "" then name else directory ++ "/" ++ name

/-- What comes of running a program by its path or, if there is no slash in it, by its name in the
directories of the search path. -/
def start (root : Place) (searchPath program : String) : StartFault :=
  if program = "" then .notFound
  else if program.toList.contains '/' then run root program
  else if maxName < program.utf8ByteSize then .nameTooLong
  else runFirst root .notFound ((searchPath.splitOn ":").map (within · program))

end Place
end SlimeServer
