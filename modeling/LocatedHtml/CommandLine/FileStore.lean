import LocatedHtml.Bytes.Windows1252

/-!
A file system as a value, with the directory from which paths are followed. A path is followed name by
name, so that a step up from a directory that does not exist fails; a step up from the top stays there.
-/

namespace LocatedHtml

/-- Why a file cannot be reached or written. -/
inductive FileError where
  | isDirectory
  | isFile
  | notDirectory
  | nameTooLong
  | nullCharacter
  deriving DecidableEq, Repr

/-- The wording of an error, for the one that has any. -/
def FileError.message : FileError → String
  | .nullCharacter => "embedded null byte"
  | _ => ""

/-- The most bytes that a name may take. -/
def maxNameSize : Nat := 255

/-- The most bytes that a path may take. -/
def maxPathSize : Nat := 4095

/-- The names that lead to a file or a directory, from the top or from another directory. -/
structure Path where
  fromTop : Bool
  names : List String
  deriving DecidableEq, Repr

namespace Path

/-- The path of a text; empty names and single points mean nothing. -/
def ofString (s : String) : Path :=
  ⟨s.startsWith "/", (s.splitOn "/").filter fun name => name != "" && name != "."⟩

/-- The path without its last name. -/
def parent (p : Path) : Path := ⟨p.fromTop, p.names.dropLast⟩

/-- The text of a path; without a name it is that of the directory where it starts. -/
def toString (p : Path) : String :=
  if p.fromTop then "/" ++ "/".intercalate p.names
  else if p.names.isEmpty then "." else "/".intercalate p.names

/-- The path has a null character somewhere. -/
def hasNull (p : Path) : Bool := p.names.any fun name => name.contains '\x00'

/-- The text of the path takes more bytes than a path may. -/
def isTooLong (p : Path) : Bool := decide (maxPathSize < p.toString.utf8ByteSize)

/-- A path by which nothing can be written is refused before it is followed. -/
def check (p : Path) : Except FileError Unit :=
  if p.hasNull then .error .nullCharacter
  else if p.isTooLong then .error .nameTooLong
  else .ok ()

end Path

/-- A name that takes more bytes than a name may. -/
def isTooLongName (name : String) : Bool := decide (maxNameSize < name.utf8ByteSize)

/-- Files and directories by the names that lead to them from the top. The directory `start`, from
which paths are followed, always exists, and so do those above it. -/
structure FileStore where
  start : List String := []
  files : List (List String × Bytes) := []
  directories : List (List String) := []

namespace FileStore

/-- The names lead to a directory. -/
def isDirectory (s : FileStore) (names : List String) : Bool :=
  names.isPrefixOf s.start || s.directories.contains names

/-- The bytes of the file to which the names lead. -/
def file? (s : FileStore) (names : List String) : Option Bytes := s.files.lookup names

/-- The directory from which a path is followed. -/
def origin (s : FileStore) (p : Path) : List String := if p.fromTop then [] else s.start

/-- Where names lead from a place, if all but the last exist. -/
def follow (s : FileStore) (place : List String) :
    List String → Except FileError (Option (List String))
  | [] => .ok (some place)
  | name :: rest =>
    if !s.isDirectory place then .ok none
    else if isTooLongName name then .error .nameTooLong
    else if name = ".." then follow s place.dropLast rest
    else follow s (place ++ [name]) rest

/-- The bytes of the file at a path, if there is one. -/
def read (s : FileStore) (path : String) : Except FileError (Option Bytes) := do
  let p := Path.ofString path
  if p.hasNull then return none
  p.check
  return (← s.follow (s.origin p) p.names).bind s.file?

/-- The store with the directories of some names that did not exist, and where the names lead. All names
are tried together first, so that a file among them is no directory; once a directory has been made, as
`made` tells, each name is tried by itself, and a file is where a directory should be. -/
def makeDirectories (s : FileStore) (made : Bool) (place : List String) :
    List String → Except FileError (FileStore × List String)
  | [] => .ok (s, place)
  | name :: rest =>
    if isTooLongName name then .error .nameTooLong
    else if name = ".." then makeDirectories s made place.dropLast rest
    else
      let next := place ++ [name]
      if s.isDirectory next then makeDirectories s made next rest
      else if (s.file? next).isSome then
        .error (if made || rest.isEmpty then .isFile else .notDirectory)
      else makeDirectories { s with directories := s.directories ++ [next] } true next rest

/-- The store with the directories above a path, and the place where the path's last name stands. -/
def prepare (s : FileStore) (p : Path) : Except FileError (FileStore × List String) := do
  p.parent.check
  s.makeDirectories false (s.origin p) p.parent.names

/-- The store with other bytes in the file to which the names lead. -/
def put (s : FileStore) (names : List String) (bytes : Bytes) : FileStore :=
  { s with files := s.files.filter (fun entry => entry.1 != names) ++ [(names, bytes)] }

/-- The store with a file at a path whose last name stands at the place. -/
def write (s : FileStore) (p : Path) (place : List String) (bytes : Bytes) :
    Except FileError FileStore := do
  p.check
  match ← s.follow place p.names.getLast?.toList with
  | none => throw .notDirectory
  | some names => if s.isDirectory names then throw .isDirectory else return s.put names bytes

/-- The store with a file at a path, and with the directories above it. -/
def add (s : FileStore) (path : String) (bytes : Bytes) : Except FileError FileStore := do
  let p := Path.ofString path
  let (s, place) ← s.prepare p
  s.write p place bytes

end FileStore

end LocatedHtml
