import LocatedHtml.Bytes.Source
import LocatedHtml.CommandLine.FileStore
import LocatedHtml.CommandLine.Options
import LocatedHtml.Document.Rendering
import LocatedHtml.JsonLines
import LocatedHtml.SpanRecord

/-!
What the program does: it reads an HTML file and gives the spans of its nodes as records, or the
document written anew.
-/

namespace LocatedHtml

/-- Why the program breaks off. -/
inductive RunError where
  | markup (cause : MarkupError)
  | document (cause : DocumentError)
  | json (cause : JsonError)
  | file (cause : FileError)
  deriving DecidableEq, Repr

/-- What is left to do once the file has been read. -/
inductive Effect where
  | print (t : Text)
  | save (path : String) (records : List Json)

/-- A name that was given and is not empty. -/
def givenName? (name : Option String) : Option String := name.filter (· != "")

/-- What the options ask for, given the contents of the file. -/
def Options.effect (o : Options) (contents : Bytes) : Except RunError Effect := do
  let url := (givenName? o.url).getD o.path
  let d ← (Document.ofHtml url (decodeSource contents) none none).mapError .markup
  if o.stringify then return .print (← (d.render [] 0).mapError .document)
  else
    let records ← (d.records o.attributes).mapError .document
    match givenName? o.output with
    | some path => return .save path records
    | none => return .print (← (JsonLines.written records).mapError .json)

/-- Saves records in a file. Directories are made first, so that they are there even if a record
cannot be written. -/
def FileStore.saveRecords (s : FileStore) (path : String) (records : List Json) :
    Except RunError FileStore := do
  let p := Path.ofString path
  let (s, place) ← (s.prepare p).mapError .file
  let bytes ← (JsonLines.encode records).mapError .json
  (s.write p place bytes).mapError .file

/-- What a run of the program leaves: its exit code, what it has printed, and the files. -/
structure Outcome where
  code : Nat
  printed : Text
  files : FileStore

/-- The exit code where the file does not exist. -/
def noFileCode : Nat := 1

/-- The exit code where the arguments are refused. -/
def refusedCode : Nat := 2

/-- How the program is called. -/
def usage : Text :=
  "usage: [--url URL] [--attributes] [--stringify] [--output OUTPUT] [--verbose] path\n".toList

/-- Runs the program on a directory. -/
def runProgram (arguments : List String) (s : FileStore) : Except RunError Outcome :=
  match Request.ofArguments arguments with
  | .help => .ok ⟨0, usage, s⟩
  | .refused => .ok ⟨refusedCode, [], s⟩
  | .run options => do
    match ← (s.read options.path).mapError .file with
    | none => return ⟨noFileCode, [], s⟩
    | some contents =>
      match ← options.effect contents with
      | .print t => return ⟨0, t, s⟩
      | .save path records => return ⟨0, [], ← s.saveRecords path records⟩

end LocatedHtml
