import LocatedHtml.CommandLine.Run

/-!
The program. It reads the file that its arguments name and prints or saves what they ask for; messages
go to the standard error stream.
-/

namespace LocatedHtml

/-- The message of an error. -/
def RunError.message : RunError → String
  | .markup cause => cause.message
  | .document cause => cause.message
  | .json cause => cause.message
  | .file cause => cause.message

/-- The bytes of a file, if it can be read. -/
def readBytes? (path : String) : IO (Option Bytes) := do
  try return some (← IO.FS.readBinFile path).toList
  catch _ => return none

/-- Carries out an effect and gives the exit code. -/
def perform (effect : Effect) : IO UInt32 := do
  match effect with
  | .print t =>
    (← IO.getStdout).write ⟨(encodeUtf8 t).toArray⟩
    return 0
  | .save path records =>
    let p := Path.ofString path
    IO.FS.createDirAll p.parent.toString
    match JsonLines.encode records with
    | .error cause => throw (IO.userError cause.message)
    | .ok bytes => IO.FS.writeBinFile p.toString ⟨bytes.toArray⟩
    return 0

/-- Does what a request asks for and gives the exit code. -/
def answer (request : Request) : IO UInt32 := do
  match request with
  | .help => perform (.print usage)
  | .refused =>
    IO.eprint (String.ofList usage)
    return refusedCode.toUInt32
  | .run options =>
    match ← readBytes? options.path with
    | none =>
      IO.eprintln ("No such file: " ++ options.path)
      return noFileCode.toUInt32
    | some contents =>
      match options.effect contents with
      | .error cause => throw (IO.userError cause.message)
      | .ok effect => perform effect

end LocatedHtml

/-- Runs the program. -/
def main (arguments : List String) : IO UInt32 :=
  LocatedHtml.answer (LocatedHtml.Request.ofArguments arguments)
