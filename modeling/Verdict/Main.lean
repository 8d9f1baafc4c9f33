import Verdict.CommandLine

/-!
# The program

Reads the files that a command names, carries the command out and writes its report.
-/

namespace Verdict

/-- What the system says of a file that cannot be read. -/
def systemMessage : IO.Error → String
  | .noFileOrDirectory .. => File.absent
  | .permissionDenied .. => "Permission denied (os error 13)"
  | .inappropriateType .. => "Is a directory (os error 21)"
  | e => toString e

def readFile (name : String) : IO (Except String (List UInt8)) := do
  try
    return .ok (← IO.FS.readBinFile name).data.toList
  catch e => return .error (systemMessage e)

/-- A directory of the files with some names. -/
def readDirectory (names : List String) : IO Directory := do
  let files ← names.mapM fun name => return (name, ← readFile name)
  return fun name => (files.lookup name).getD (.error File.absent)

/-- The environment as far as it is asked for: the settings and the variables that a file of
assignments may name. -/
def readEnvironment (directory : Directory) : IO Environment := do
  let text := match directory ".env" with
    | .ok bytes => (String.fromUTF8? bytes.toByteArray).getD ""
    | .error _ => ""
  let spaced := text.toList.map fun c => if c.isAlphanum || c == '_' then c else ' '
  let names := Setting.all.map Setting.key ++ ["RUST_LOG", "RUST_LIB_BACKTRACE", "RUST_BACKTRACE"]
    ++ (Text.splitAt ' ' spaced).map String.ofList
  names.filterMapM fun name => return (← IO.getEnv name).map fun value => (name, value)

/-- No webhook is within reach, and the stack is not known. -/
def unreachable : Webhook := fun name url =>
  ⟨name, fun _ => { failure := some (.io ("cannot reach " ++ url.toText)) }⟩

/-- Patterns are not understood, and lines are written without the time. -/
def plainLogger : Logger where
  pattern _ := .error "patterns are not supported"
  line _ _ note :=
    "[" ++ note.severity.label ++ " " ++ note.source ++ "] " ++ note.text ++ "\n"

def Command.fileNames : Command → List String
  | run tree data => [tree, data]
  | validate tree => [tree]
  | _ => []

end Verdict

open Verdict

def main (arguments : List String) : IO UInt32 := do
  let names := ((Command.ofArguments? arguments).map Command.fileNames).getD []
  let directory ← readDirectory (".env" :: names)
  let platform : Platform := ⟨directory, unreachable, plainLogger, "   0: <unknown>"⟩
  match Command.start platform (← readEnvironment directory) arguments with
  | .finished report =>
    (← IO.getStdout).putStr report.output
    (← IO.getStderr).putStr report.errors
    return UInt32.ofNat report.status
  | .serving config =>
    let address := config.bindAddress.toText ++ ":" ++ toString config.port
    (← IO.getStderr).putStr ("Error: cannot listen on " ++ address ++ "\n")
    return 1
